import TikzPress.FileTree

/-!
Programs that a compilation calls. What a program does is all that matters about it: how it changes the
files, what it says, and how it ends.
-/

namespace TikzPress

structure Call where
  program : Text
  arguments : List Text
  deriving DecidableEq, Repr

-- A program that hangs ends only when it is stopped.
inductive Ending where
  | exited (code : Nat)
  | killed
  | hangs
  deriving DecidableEq, Repr

structure Effect where
  tree : FileTree
  messages : Bytes
  ending : Ending
  deriving DecidableEq, Repr

abbrev Programs := Call → Location → FileTree → Except FileError Effect

structure Host where
  directory : Location
  programs : Programs
  width : Nat

structure World where
  tree : FileTree
  calls : List Call
  deriving DecidableEq, Repr

end TikzPress
