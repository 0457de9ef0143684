import TikzPress.Markdown.Margin
import TikzPress.Text.Occurrence

/-!
Blocks of HTML. Some end after the line with a closing text, the others before a line without
content.
-/

namespace TikzPress.Markdown.Html

def lower (t : Text) : Text := t.map Char.toLower

def verbatimElements : List Text :=
  ["pre".toList, "style".toList, "script".toList, "textarea".toList]

def endText? (t : Text) : Option Text :=
  let opens (element : Text) : Bool :=
    lower (t.take element.length) = element &&
      (t.drop element.length).head?.all fun c => isAsciiBlank c || c = '>'
  match verbatimElements.find? opens with
  | some element => some ("</".toList ++ element ++ ['>'])
  | none =>
    if Text.opensWith "!--".toList t then some "-->".toList
    else match t with
      | '?' :: _ => some "?>".toList
      | '!' :: c :: rest =>
        if Text.opensWith "[CDATA[".toList (c :: rest) then some "]]>".toList
        else if c.isAlpha then some ">".toList
        else none
      | _ => none

def blockElements : List Text :=
  (["address article aside base basefont blockquote body caption center col colgroup dd details",
    "dialog dir div dl dt fieldset figcaption figure footer form frame frameset h1 h2 h3 h4 h5 h6",
    "head header hr html iframe legend li link main menu menuitem nav noframes ol optgroup option",
    "p param search section summary table tbody td tfoot th thead title tr track ul"]
    : List String).flatMap fun names => Text.piecesAt ' ' names.toList

def opensBlockElement (t : Text) : Bool :=
  let t := (Text.dropLiteral? ['/'] t).getD t
  let after := t.dropWhile Char.isAlphanum
  blockElements.contains (lower (t.takeWhile Char.isAlphanum)) &&
    (after.head?.all (fun c => c = ' ' || c = '\t' || c = '\r' || c = '\n' || c = '>') ||
      Text.opensWith "/>".toList after)

def dropValue? : Text → Option Text
  | [] => none
  | q :: t =>
    if q = '"' ∨ q = '\'' then
      match t.dropWhile fun c => c ≠ q && c ≠ '\n' && c ≠ '\r' with
      | c :: rest => if c = q then some rest else none
      | [] => none
    else
      let isValueChar (c : Char) : Bool := !"'\" =><\x60\n\r".toList.contains c
      if isValueChar q then some (t.dropWhile isValueChar) else none

def dropAttribute? (t : Text) : Option Text :=
  match t with
  | [] => none
  | c :: rest =>
    if c.isAlpha ∨ c = '_' ∨ c = ':' then
      let after := rest.dropWhile fun c => c.isAlphanum || "_.:-".toList.contains c
      match after.dropWhile isLineBlank with
      | '=' :: value => dropValue? (value.dropWhile isLineBlank)
      | '\n' :: _ | '\r' :: _ => none
      | _ => some after
    else none

def dropAttributes? (t : Text) : Option Text :=
  match t.dropWhile isLineBlank with
  | [] => none
  | c :: rest =>
    if c = '/' ∨ c = '>' then some (c :: rest)
    else if isLineBlank (t.headD c) then
      match dropAttribute? (c :: rest) with
      | some after => if after.length < t.length then dropAttributes? after else none
      | none => none
    else none
termination_by t.length

def isTagAlone (t : Text) : Bool :=
  let closing := Text.opensWith ['/'] t
  let name := (Text.dropLiteral? ['/'] t).getD t
  let dropName (t : Text) := t.dropWhile fun c => c.isAlphanum || c = '-'
  let after : Option Text :=
    if !name.head?.any Char.isAlpha then none
    else if closing then some ((dropName name).dropWhile isLineBlank)
    else (dropAttributes? (dropName name)).map fun rest =>
      (Text.dropLiteral? ['/'] rest).getD rest
  match after with
  | some ('>' :: rest) => isBlankLine rest
  | _ => false

end TikzPress.Markdown.Html
