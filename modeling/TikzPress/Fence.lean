import TikzPress.Markdown.Block
import TikzPress.Range

/-!
The TikZ fences of a Markdown text, in the order in which they stand.
-/

namespace TikzPress

structure Fence where
  content : Text
  range : Range
  deriving DecidableEq, Repr

def Fence.all (markdown : Text) : List Fence :=
  let stop := Text.width markdown
  (Markdown.readBlocks ⟨[], .none⟩ markdown).filterMap fun f =>
    if Markdown.Info.isTikz f.info then
      some ⟨f.content, ⟨stop - Text.width f.start, stop - Text.width f.stop⟩⟩
    else none

end TikzPress
