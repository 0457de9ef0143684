import TikzPress.Environment

/-!
Standalone documents around a fragment.
-/

namespace TikzPress.Standalone

def documentClass : Text := "\\documentclass[tikz,border=2pt]\x7bstandalone\x7d".toList

def libraries : Text :=
  "\\usetikzlibrary\x7barrows.meta,positioning,calc,shapes,fit\x7d".toList

-- Content without a `tikzpicture` is put into one.
def lines (content : Text) (preamble : List Text) : List Text :=
  let picture := "tikzpicture".toList
  let document := "document".toList
  [documentClass, libraries] ++ preamble ++ [Environment.opening document] ++
    (if Text.occursIn (Environment.opening picture) content then [content]
     else [Environment.opening picture, content, Environment.closing picture]) ++
    [Environment.closing document]

-- Content that is a document already stays as it is; the lines of the preamble go in front of the begin marker of
-- the document.
def wrap (content : Text) (preamble : List Text) : Text :=
  if Text.occursIn (Environment.opening "document".toList) content then content
  else Text.joinWith ['\n'] (lines content preamble)

end TikzPress.Standalone
