import ShapeSchema.Ty.Simplify
import ShapeSchema.Ty.Visit

/-!
# Streaming types

`toStreamed` turns an authored type into the type of its partially received values: leaves become
optional unless they are `needed`, classes and aliases switch to their partial definitions, and a
subtree marked `done` stays whole. `toAuthored` turns back, and restores `needed` from the shape: a
leaf that is not optional must have been needed.
-/

namespace ShapeSchema.Ty

/-- A subtree that arrives whole: complete references below, the flag `done` at its root. -/
def whole (t : Ty Authored) : Ty Streamed :=
  let kept :=
    t.mapAnn
      (fun n => (⟨n.ann.constraints, n.ann.flags.done, n.ann.flags.state⟩ : Streamed))
      (some .complete)
  kept.withAnn { kept.ann with done := true }

/-- A whole subtree, optional unless null stays outside. -/
def wholeOf (inUnion : Bool) (t : Ty Authored) : Ty Streamed :=
  if inUnion || t.ann.flags.needed || t.isNull then t.whole else optionalOf t.whole {}

/-- A leaf: as it is where null stays outside, otherwise optional, and then the flag `state` moves
to the wrapper. -/
def streamLeaf (a : Authored) (bare whole : Bool) (build : Streamed → Ty Streamed) : Ty Streamed :=
  if bare then build ⟨a.constraints, whole, a.flags.state⟩
  else optionalOf (build ⟨a.constraints, whole, false⟩) { state := a.flags.state }

/-- Unions that are not flattened into a streaming union around them. -/
def keepsApart (a : Streamed) : Bool := Metadata.hasChecks a || a.done || a.state

/-- Metadata of a node that is neither a leaf nor whole. -/
def passOn (a : Authored) : Streamed := ⟨a.constraints, false, a.flags.state⟩

/-- The null member of a streaming union: its own, else the first among the members, else a new one
unless null stays outside. -/
def streamNull (own : Option Streamed) (members : List (Ty Streamed)) (bare : Bool) :
    Option Streamed :=
  match own.or (members.findSome? nullAnn?) with
  | some n => some n
  | none => if bare then none else some {}

mutual

/-- The streaming type; `inUnion` tells that the node is a member of a union. -/
def stream (inUnion : Bool) : Ty Authored → Ty Streamed
  | t@(top a) =>
    if a.flags.done then wholeOf inUnion t else streamLeaf a (inUnion || a.flags.needed) false top
  | t@(prim .null a) => if a.flags.done then wholeOf inUnion t else prim .null (passOn a)
  | t@(prim p a) =>
    if a.flags.done then wholeOf inUnion t
    else streamLeaf a (inUnion || a.flags.needed) (p != .string) (prim p)
  | t@(enumRef n d a) =>
    if a.flags.done then wholeOf inUnion t
    else streamLeaf a (inUnion || a.flags.needed) true (enumRef n d)
  | t@(literal l a) =>
    if a.flags.done then wholeOf inUnion t
    else streamLeaf a (inUnion || a.flags.needed) true (literal l)
  | t@(classRef n _ d a) =>
    if a.flags.done then wholeOf inUnion t
    else streamLeaf a (inUnion || a.flags.needed) false (classRef n .partialValue d)
  | t@(aliasRef n _ a) =>
    if a.flags.done then wholeOf inUnion t
    else streamLeaf a (inUnion || a.flags.needed) false (aliasRef n .partialValue)
  | t@(list i a) => if a.flags.done then wholeOf inUnion t else list (stream false i) (passOn a)
  | t@(map k v a) =>
    if a.flags.done then wholeOf inUnion t else map (stream false k) (stream false v) (passOn a)
  | t@(tuple is a) =>
    if a.flags.done then wholeOf inUnion t else tuple (streamAll false is) (passOn a)
  | t@(arrow ps r a) =>
    if a.flags.done then wholeOf inUnion t
    else arrow (streamAll false ps) (stream false r) (passOn a)
  | t@(union ms null a) =>
    if a.flags.done then wholeOf inUnion t
    else
      let flat := flattenAll keepsApart (streamAll true ms)
      let own :=
        null.map fun n =>
          if n.flags.done then (⟨n.constraints, true, n.flags.state⟩ : Streamed) else passOn n
      union (dedupe (flat.filter fun m => !m.isNull))
        (streamNull own flat (inUnion || a.flags.needed)) (passOn a)

def streamAll (inUnion : Bool) : List (Ty Authored) → List (Ty Streamed)
  | [] => []
  | t :: ts => stream inUnion t :: streamAll inUnion ts

end

/-- The type of partially received values. -/
def toStreamed (t : Ty Authored) : Ty Streamed := t.stream false

mutual

/-- The type before `toStreamed`; `back` annotates a node anew, told whether the node was needed,
and `inUnion` tells that the node is a member of a union. -/
def unstream {μ ν : Type} (back : Bool → μ → ν) (inUnion : Bool) : Ty μ → Ty ν
  | top a => top (back (!inUnion) a)
  | prim p a => prim p (back (!inUnion && p != .null) a)
  | enumRef n d a => enumRef n d (back (!inUnion) a)
  | literal l a => literal l (back (!inUnion) a)
  | classRef n m d a => classRef n m d (back (!inUnion) a)
  | aliasRef n m a => aliasRef n m (back (!inUnion) a)
  | list i a => list (unstream back false i) (back false a)
  | map k v a => map (unstream back false k) (unstream back false v) (back false a)
  | tuple is a => tuple (unstreamAll back false is) (back false a)
  | arrow ps r a => arrow (unstreamAll back false ps) (unstream back false r) (back false a)
  | union ms null a =>
    union (unstreamAll back true ms) (null.map (back false)) (back (!inUnion && null.isNone) a)

def unstreamAll {μ ν : Type} (back : Bool → μ → ν) (inUnion : Bool) : List (Ty μ) → List (Ty ν)
  | [] => []
  | t :: ts => unstream back inUnion t :: unstreamAll back inUnion ts

end

/-- Authored annotation of a streaming one. -/
def backAnn (needed : Bool) (a : Streamed) : Authored := ⟨a.constraints, ⟨needed, a.done, a.state⟩⟩

/-- The authored type that a streaming type comes from. -/
def toAuthored (t : Ty Streamed) : Ty Authored := t.unstream backAnn false

/-- The type of complete values: references to complete definitions, no streaming flags. -/
def toSettled {μ : Type} [Metadata μ] (t : Ty μ) : Ty Settled :=
  t.mapAnn (fun n => ⟨Metadata.constraints n.ann⟩) (some .complete)

/-! ## Completion state -/

/-- Is a value received in full? -/
inductive Completion where
  | incomplete | complete
deriving DecidableEq

/-- A value, with its completion state where the type asks for it. -/
inductive Staged (α : Type) where
  | plain (value : α)
  | staged (value : α) (completion : Completion)

/-- Pairs a value with its completion state if the type's root carries the flag. -/
def stage {α : Type} (t : Ty Streamed) (value : α) (c : Completion) : Staged α :=
  if t.ann.state then .staged value c else .plain value

end ShapeSchema.Ty
