import ShapeSchema.Ty.Streaming

/-!
# Draft types

While a type is edited its nodes may come from types of different kinds: an authored type wrapped
around a streaming one, say. A draft annotation therefore tells of each flag whether it is set at
all, and may have no streaming flags. Flags that are not set count as off; a type can be streamed
only if every node has flags.
-/

namespace ShapeSchema

/-- Metadata of a type that is being edited. -/
structure Draft where
  constraints : List Constraint := []
  flags : Option FlagChange := some {}
deriving DecidableEq, Inhabited

namespace Draft

/-- The streaming flags that are set, by their names. -/
def flagMembers (f : FlagChange) : List (String × Native) :=
  let member (name : String) (b : Option Bool) := (b.map fun b => (name, Native.bool b)).toList
  member "needed" f.needed ++ member "done" f.done ++ member "state" f.state

instance : Metadata Draft where
  constraints := Draft.constraints
  withConstraints a cs := { a with constraints := cs }
  state a := (a.flags.bind FlagChange.state).getD false
  toNative a := .object (("constraints", constraintsToNative a.constraints)
    :: (a.flags.map fun f => ("streamingBehavior", Native.object (flagMembers f))).toList)

def ofAuthored (a : Authored) : Draft :=
  ⟨a.constraints, some ⟨some a.flags.needed, some a.flags.done, some a.flags.state⟩⟩

def ofStreamed (a : Streamed) : Draft := ⟨a.constraints, some ⟨none, some a.done, some a.state⟩⟩

def ofSettled (a : Settled) : Draft := ⟨a.constraints, none⟩

/-- The authored annotation whose flags are those that are set and on. -/
def toAuthored (a : Draft) : Authored := ⟨a.constraints, (a.flags.getD {}).apply {}⟩

/-- Sets flags; those not given stay as they are. -/
def change (c : FlagChange) (a : Draft) : Draft :=
  let f := a.flags.getD {}
  { a with flags := some ⟨c.needed.or f.needed, c.done.or f.done, c.state.or f.state⟩ }

/-- The flags with `needed` restored; the others stay unset if they are. -/
def back (needed : Bool) (a : Draft) : Draft := a.change { needed := some needed }

end Draft

namespace Ty

/-- A finished type as a draft. -/
def draft (t : Ty Authored) : Ty Draft := t.mapAnn (fun n => .ofAuthored n.ann) none

/-- The authored type whose flags are those that are set and on. -/
def finish (t : Ty Draft) : Ty Authored := t.mapAnn (fun n => n.ann.toAuthored) none

/-- Does every node have streaming flags? -/
def hasFlags (t : Ty Draft) : Bool := t.nodes.all fun n => n.ann.flags.isSome

/-- The streaming type of a draft, if every node has flags. -/
def draftStreamed? (t : Ty Draft) : Option (Ty Streamed) :=
  if t.hasFlags then some t.finish.toStreamed else none

/-- A draft with `needed` restored, if every node has flags. -/
def draftAuthored? (t : Ty Draft) : Option (Ty Draft) :=
  if t.hasFlags then some (t.unstream Draft.back false) else none

/-- A streaming type as a draft. -/
def draftOfStreamed (t : Ty Streamed) : Ty Draft := t.mapAnn (fun n => .ofStreamed n.ann) none

/-- A draft of the type of complete values. -/
def draftSettled (t : Ty Draft) : Ty Draft := t.toSettled.mapAnn (fun n => .ofSettled n.ann) none

/-- A draft that allows null; what is new is annotated as an author's default. -/
def draftOptional (t : Ty Draft) : Ty Draft := optionalOf t (.ofAuthored {})

/-- Sets streaming flags of a draft's root. -/
def draftStreaming (t : Ty Draft) (c : FlagChange) : Ty Draft := t.withAnn (t.ann.change c)

/-- Does a type that was streamed come back to itself by way of the authored type? Nothing is said
of a draft that cannot be streamed. -/
def streamsBack? (t : Ty Draft) : Option Bool :=
  t.draftStreamed?.map fun s => s.toAuthored.toStreamed.same s

/-- Pairs a value with its completion state if the root's flag asks for it; nothing if the root has
no flags. -/
def draftStage? {α : Type} (t : Ty Draft) (value : α) (c : Completion) : Option (Staged α) :=
  t.ann.flags.map fun f => if f.state.getD false then .staged value c else .plain value

end Ty

end ShapeSchema
