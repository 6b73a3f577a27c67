import ShapeSchema.Ty.Basic

/-!
# Walking types

Rebuilding a type node by node, searching it, and collecting or renaming the names that it refers
to. A union's children are its members with null last.
-/

namespace ShapeSchema.Ty

variable {μ ν : Type}

mutual

/-- The type with new annotations; `f` sees each original node. A given mode is set on every class
and alias. -/
def mapAnn (f : Ty μ → ν) (mode : Option Mode) : Ty μ → Ty ν
  | top a => top (f (top a))
  | prim p a => prim p (f (prim p a))
  | enumRef n d a => enumRef n d (f (enumRef n d a))
  | literal l a => literal l (f (literal l a))
  | classRef n m d a => classRef n (mode.getD m) d (f (classRef n m d a))
  | list i a => list (mapAnn f mode i) (f (list i a))
  | map k v a => map (mapAnn f mode k) (mapAnn f mode v) (f (map k v a))
  | tuple is a => tuple (mapAnns f mode is) (f (tuple is a))
  | aliasRef n m a => aliasRef n (mode.getD m) (f (aliasRef n m a))
  | arrow ps r a => arrow (mapAnns f mode ps) (mapAnn f mode r) (f (arrow ps r a))
  | union ms null a =>
    union (mapAnns f mode ms) (null.map fun n => f (prim .null n)) (f (union ms null a))

def mapAnns (f : Ty μ → ν) (mode : Option Mode) : List (Ty μ) → List (Ty ν)
  | [] => []
  | t :: ts => mapAnn f mode t :: mapAnns f mode ts

end

/-- The nodes directly below the root. -/
def children : Ty μ → List (Ty μ)
  | list i _ => [i]
  | map k v _ => [k, v]
  | tuple is _ => is
  | arrow ps r _ => ps ++ [r]
  | union ms null _ => allMembers ms null
  | _ => []

mutual

/-- Every node, each before those below it. -/
def nodes : Ty μ → List (Ty μ)
  | list i a => list i a :: nodes i
  | map k v a => map k v a :: (nodes k ++ nodes v)
  | tuple is a => tuple is a :: nodesOf is
  | arrow ps r a => arrow ps r a :: (nodesOf ps ++ nodes r)
  | union ms null a => union ms null a :: (nodesOf ms ++ nullMember null)
  | t => [t]

def nodesOf : List (Ty μ) → List (Ty μ)
  | [] => []
  | t :: ts => nodes t ++ nodesOf ts

end

/-- The first node, the root first, for which `p` holds. -/
def find? (t : Ty μ) (p : Ty μ → Bool) : Option (Ty μ) := t.nodes.find? p

/-- The class or alias that a node names. -/
def className? : Ty μ → Option String
  | classRef n _ _ _ => some n
  | aliasRef n _ _ => some n
  | _ => none

/-- The enum that a node names. -/
def enumName? : Ty μ → Option String
  | enumRef n _ _ => some n
  | _ => none

/-- Names of the classes and aliases that a type refers to, each once, in order of appearance. -/
def classNames (t : Ty μ) : List String := (t.nodes.filterMap className?).eraseDups

/-- Names of the enums that a type refers to, each once, in order of appearance. -/
def enumNames (t : Ty μ) : List String := (t.nodes.filterMap enumName?).eraseDups

/-- New names for classes and aliases, and for enums; a name without a new one is kept. -/
structure Renaming where
  classes : String → Option String
  enums : String → Option String

mutual

/-- The type with its references renamed. -/
def rename (r : Renaming) : Ty μ → Ty μ
  | enumRef n d a => enumRef ((r.enums n).getD n) d a
  | classRef n m d a => classRef ((r.classes n).getD n) m d a
  | aliasRef n m a => aliasRef ((r.classes n).getD n) m a
  | list i a => list (rename r i) a
  | map k v a => map (rename r k) (rename r v) a
  | tuple is a => tuple (renames r is) a
  | arrow ps t a => arrow (renames r ps) (rename r t) a
  | union ms null a => union (renames r ms) null a
  | top a => top a
  | prim p a => prim p a
  | literal l a => literal l a

def renames (r : Renaming) : List (Ty μ) → List (Ty μ)
  | [] => []
  | t :: ts => rename r t :: renames r ts

end

end ShapeSchema.Ty
