import Bkmail.Command.Basic

namespace Bkmail

/-- The cell that `operation_model` is: a command, its completion target, and the flags that
    the pumps and the cancellation paths keep in it. -/
structure Operation where
  addr : Nat := 0
  tag : Tag := []
  request : Request := .idle
  command : Command := .idle {}
  /-- `kCallbackPath`: a plain handler, which has no stopped channel and no stop token. -/
  callbackPath : Bool := true
  segmentStaged : Bool := false
  hasWritten : Bool := false
  detached : Bool := false
  stopped : Bool := false
  stopSeen : Bool := false
  finished : Bool := false
  /-- The untagged responses handed to the command so far, from which it makes its result. -/
  absorbed : List UntaggedResponse := []

namespace Operation

def attach (addr : Nat) (tag : Tag) (request : Request) (callbackPath : Bool) : Operation :=
  { addr, tag, request, callbackPath, command := request.render tag }

def nextSegment (op : Operation) : Bytes := if op.segmentStaged then [] else op.command.nextSegment

def awaitsContinuation (op : Operation) : Bool := op.command.awaitsContinuation

def blocksPipeline (op : Operation) : Bool := op.command.blocksPipeline

def onSegmentStaged (op : Operation) : Operation := { op with segmentStaged := true }

def onSegmentFlushed (op : Operation) : Operation :=
  { op with segmentStaged := false, hasWritten := true, command := op.command.onSegmentFlushed }

def isWritten (op : Operation) : Bool :=
  !op.segmentStaged && !op.command.awaitsContinuation && op.command.nextSegment == []

def isStaged (op : Operation) : Bool := op.segmentStaged

def onContinuation (op : Operation) : Operation := { op with command := op.command.onContinuation }

def onUntagged (op : Operation) (r : UntaggedResponse) : Operation :=
  { op with absorbed := op.absorbed ++ [r] }

def wantsUntagged (op : Operation) (kind : UntaggedKind) : Bool := op.command.wantsUntagged kind

def cancelWritten (op : Operation) : Option Operation :=
  op.command.done?.map fun command => { op with command, stopped := true }

def markDetached (op : Operation) : Operation := { op with detached := true }

end Operation

end Bkmail
