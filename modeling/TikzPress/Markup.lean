import TikzPress.Status

/-!
HTML that is shown in place of a fence.
-/

namespace TikzPress.Markup

def escapeChar : Char → Text
  | '&' => "&amp;".toList
  | '<' => "&lt;".toList
  | '>' => "&gt;".toList
  | '"' => "&quot;".toList
  | '\'' => "&#39;".toList
  | c => [c]

def escape (t : Text) : Text := t.flatMap escapeChar

def block (kind key content : Text) : Text :=
  "<div class=\"tikzmd-block".toList ++ kind ++ "\" data-tikz-key=\"".toList ++ escape key ++
    "\">".toList ++ content ++ "</div>".toList

def render (key : Text) : Status → Text
  | .resolved path =>
    block [] key ("<img src=\"".toList ++ escape path ++ "\" alt=\"TikZ diagram\" />".toList)
  | .failed message => block " tikzmd-error".toList key (escape message)
  | .absent | .pending => block " tikzmd-pending".toList key "Compiling TikZ…".toList

end TikzPress.Markup
