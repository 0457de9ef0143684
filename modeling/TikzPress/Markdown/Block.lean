import TikzPress.Markdown.Definition

/-!
The blocks of a Markdown text, line by line. Only fences are kept; the others are passed, for they decide
where a fence may open.
-/

namespace TikzPress.Markdown

inductive EmptyItem where
  | none
  | opened
  | left
  deriving DecidableEq, Repr

-- Whether the last item that was opened has an empty first line and, if so, an empty second one, is kept with the
-- containers.
structure Open where
  containers : List Container
  empty : EmptyItem
  deriving DecidableEq, Repr

namespace Open

def isItem : Container → Bool
  | .item _ => true
  | _ => false

def isList : Container → Bool
  | .list _ => true
  | _ => false

def closeEmptyItem (o : Open) : Open :=
  let isOver : Bool := o.empty = .left && o.containers.getLast?.any isItem
  ⟨if isOver then o.containers.dropLast else o.containers, .none⟩

def closeList (o : Open) : Open :=
  let o := o.closeEmptyItem
  if o.containers.getLast?.any isList then { o with containers := o.containers.dropLast } else o

def push (o : Open) (c : Container) : Open := { o with containers := o.containers ++ [c] }

def enterList (o : Open) (sign : Char) : Open :=
  let o := o.closeEmptyItem
  if o.containers.getLast? = some (.list sign) then o else o.closeList.push (.list sign)

-- The content of an item that is still empty can no longer follow.
def afterBlank (o : Open) : Open :=
  match o.containers.getLast? with
  | some .quote => o
  | some (.item _) =>
    if o.empty = .none then o else ⟨o.containers.dropLast ++ [.item 0], .left⟩
  | _ => if o.empty = .none then o else { o with empty := .left }

end Open

inductive LineStart where
  | emptyItem (rest : Text)
  | content (m : Margin)

def openContainers (o : Open) (m : Margin) : Open × LineStart :=
  let (column, after) := m.take 4
  if column = 4 then (o, .content m)
  else
    match ItemMark.open? column after with
    | some (sign, indent, inner) =>
      let o := (o.enterList sign).push (.item indent)
      match dropBlankLine? inner.rest with
      | some rest => ({ o with empty := .opened }, .emptyItem rest)
      | none =>
        if inner.rest.length < m.rest.length then openContainers o inner else (o, .content inner)
    | none =>
      match after.quoteSign? with
      | some inner =>
        let o := o.closeList.push .quote
        if inner.rest.length < m.rest.length then openContainers o inner else (o, .content inner)
      | none => (o, .content m)
termination_by m.rest.length

def dropParagraph (containers : List Container) (t : Text) : Text :=
  let after := dropLine t
  match underlined? containers after with
  | some rest => rest
  | none =>
    match continued? containers after with
    | some more => if more.length < t.length then dropParagraph containers more else after
    | none => after
termination_by t.length

def dropCode (containers : List Container) (t : Text) : Text :=
  let after := (cutLine t).2
  match withinAll? (.ofLine after) containers with
  | none => after
  | some m =>
    let (k, inner) := m.take 4
    if (k = 4 ∨ inner.atEnd) ∧ inner.rest ≠ [] ∧ inner.rest.length < t.length then
      dropCode containers inner.rest
    else after
termination_by t.length

def dropHtmlThrough (containers : List Container) (close t : Text) : Text :=
  let (line, after) := cutLine t
  match withinAll? (.ofLine after) containers with
  | none => after
  | some m =>
    if Text.occursIn close line ∨ m.rest = [] then after
    else if m.rest.length < t.length then dropHtmlThrough containers close m.rest
    else after
termination_by t.length

def dropHtml (containers : List Container) (t : Text) : Text :=
  let after := (cutLine t).2
  match withinAll? (.ofLine after) containers with
  | none => after
  | some m =>
    if isBlankLine m.rest then after
    else if m.rest.length < t.length then dropHtml containers m.rest
    else after
termination_by t.length

-- A carriage return before the last character is dropped.
def codeLine (line : Text) : Text :=
  match line.reverse with
  | c :: '\r' :: before => if c.utf8Size = 1 then before.reverse ++ [c] else line
  | _ => line

-- The content, the end of the closing line, and what follows that line. Without a closing line a fence ends with
-- its containers.
def readFence (containers : List Container) (indent : Nat) (sign : FenceSign) (t : Text) :
    Text × Text × Text :=
  match withinAll? (.ofLine t) containers with
  | none => ([], t, t)
  | some m =>
    let inner := (m.take indent).2
    let (k, after) := inner.take (4 - indent)
    match if k < 4 - indent then sign.dropClosing? after.rest else none with
    | some stop => ([], stop, (dropBlankLine? stop).getD stop)
    | none =>
      let (line, more) := cutLine inner.rest
      let (content, stop, rest) :=
        if more.length < t.length then readFence containers indent sign more else ([], more, more)
      (List.replicate inner.owed ' ' ++ codeLine line ++ content, stop, rest)
termination_by t.length

structure FoundFence where
  info : Text
  content : Text
  start : Text
  stop : Text

def readLeaf (o : Open) (m : Margin) : Option FoundFence × Open × Text :=
  let (indent, after) := m.take 4
  let t := after.rest
  let o := o.closeList
  let containers := o.containers
  if indent = 4 then (none, o, dropCode containers t)
  else
    let html? : Option Text := match t with
      | '<' :: tag =>
        match Html.endText? tag with
        | some close => some (dropHtmlThrough containers close t)
        | none =>
          if Html.opensBlockElement tag ∨ Html.isTagAlone tag then some (dropHtml containers t)
          else none
      | _ => none
    match html?, dropRule? t, FenceSign.read? t with
    | some rest, _, _ => (none, o, rest)
    | none, some rest, _ => (none, o, rest)
    | none, none, some (sign, rest) =>
      let (info, inner) := cutLine rest
      let (content, stop, rest) := readFence containers indent sign inner
      (some ⟨info, content, t, stop⟩, o, rest)
    | none, none, none =>
      if isHeading t then (none, o, dropLine t)
      else
        match Definition.dropAll containers t with
        | .inl rest => (none, o, rest)
        | .inr text => (none, o, dropParagraph containers text)

def readBlock (o : Open) (t : Text) : Option FoundFence × Open × Text :=
  let (containers, m) := within (.ofLine t) o.containers
  match openContainers { o with containers } m with
  | (o, .emptyItem rest) => (none, o, rest)
  | (o, .content m) =>
    match dropBlankLine? m.rest with
    | some rest => (none, o.afterBlank, rest)
    | none => readLeaf o m

def readBlocks (o : Open) (t : Text) : List FoundFence :=
  let (found?, o, rest) := readBlock o t
  let found := found?.toList
  if rest.length < t.length then found ++ readBlocks o rest else found
termination_by t.length

end TikzPress.Markdown
