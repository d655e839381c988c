import StyleModules.Sheet.Node
import StyleModules.Sheet.Token

/-!
# The tree of a stylesheet

The tokens of a sheet are put together by a machine with a stack of open blocks. A comment waits
for the next statement or block; if none comes before the enclosing block closes, it belongs to
that block, or at the end to the sheet. A brace without a selector opens no block: its statements
stay where they are, and its closing brace is matched and dropped. A closing brace with nothing to
close is dropped too, and the end of the sheet closes whatever is open. So every text has a tree.
-/

namespace StyleModules

/-- A block that is still open. -/
structure OpenBlock where
  /-- The selector; the sheet itself has none. -/
  selector : Option Text := none
  /-- The comments before the block. -/
  comments : List Text := []
  /-- The statements read so far. -/
  children : List Node := []
  /-- How many braces without a selector are open inside. -/
  groups : Nat := 0

namespace OpenBlock

/-- Add a statement at the end. -/
def push (block : OpenBlock) (node : Node) : OpenBlock :=
  { block with children := block.children ++ [node] }

/-- The finished block; comments that found no statement come after those before the block. -/
def close (block : OpenBlock) (trailing : List Text) : Node :=
  { kind := .block
    selector := block.selector
    children := block.children
    comments := block.comments ++ trailing }

end OpenBlock

/-- What has been read of a sheet: the open blocks, innermost first, and the waiting comments. -/
structure Reading where
  /-- The innermost open block. -/
  block : OpenBlock := {}
  /-- The blocks around it, from the inside out. -/
  outer : List OpenBlock := []
  /-- The comments that wait for a statement. -/
  pending : List Text := []

namespace Reading

/-- Read a head before an opening brace. -/
def openBlock (state : Reading) (head : Text) : Reading :=
  let selector := Text.trim head
  if selector.isEmpty then
    { state with block := { state.block with groups := state.block.groups + 1 } }
  else
    { block := { selector := some selector, comments := state.pending }
      outer := state.block :: state.outer
      pending := [] }

/-- Read a closing brace. -/
def closeBlock (state : Reading) : Reading :=
  match state.block.groups, state.outer with
  | groups + 1, _ => { state with block := { state.block with groups := groups } }
  | 0, [] => state
  | 0, parent :: outer =>
    { block := parent.push (state.block.close state.pending), outer := outer, pending := [] }

/-- Read a statement; blank ones leave no trace. -/
def addStatement (state : Reading) (head : Text) : Reading :=
  if (Text.trim head).isEmpty then state
  else { state with block := state.block.push (Node.ofStatement head state.pending), pending := [] }

/-- Read one token. -/
def step (state : Reading) : Token → Reading
  | .space _ => state
  | .comment text => { state with pending := state.pending ++ [text] }
  | .opening head => state.openBlock head
  | .statement head _ => state.addStatement head
  | .closing => state.closeBlock

/-- Close every block that is open at the end, from the inside out. -/
def closeAll (block : OpenBlock) (pending : List Text) : List OpenBlock → Node
  | [] => block.close pending
  | parent :: outer => closeAll (parent.push (block.close pending)) [] outer

/-- The tree of what has been read. -/
def finish (state : Reading) : Node := closeAll state.block state.pending state.outer

end Reading

/-- The tree of a stylesheet. -/
def parse (t : Text) : Node := ((scan t).foldl Reading.step {}).finish

end StyleModules
