/-!
# Flags

The modifiers of native types and members, and what they make visible to script code.
-/

namespace Interop

structure Flags where
  isPublic : Bool := false
  isProtected : Bool := false
  isPrivate : Bool := false
  isStatic : Bool := false
  isFinal : Bool := false
  isAbstract : Bool := false
  isVariadic : Bool := false
  /-- Excluded from script code whatever else is said. -/
  isHidden : Bool := false
  deriving DecidableEq, Repr, Inhabited

namespace Flags

/-- Every flag that either side has. -/
def union (a b : Flags) : Flags :=
  { isPublic := a.isPublic || b.isPublic
    isProtected := a.isProtected || b.isProtected
    isPrivate := a.isPrivate || b.isPrivate
    isStatic := a.isStatic || b.isStatic
    isFinal := a.isFinal || b.isFinal
    isAbstract := a.isAbstract || b.isAbstract
    isVariadic := a.isVariadic || b.isVariadic
    isHidden := a.isHidden || b.isHidden }

/-- Public members are visible, protected ones where non-public members are asked for, hidden ones never. -/
def isVisible (f : Flags) (includeNonPublic : Bool) : Bool :=
  !f.isHidden && (f.isPublic || (includeNonPublic && f.isProtected))

def words (f : Flags) : List String :=
  (if f.isPublic then ["public"] else []) ++ (if f.isProtected then ["protected"] else [])
    ++ (if f.isPrivate then ["private"] else []) ++ (if f.isStatic then ["static"] else [])
    ++ (if f.isFinal then ["final"] else []) ++ (if f.isAbstract then ["abstract"] else [])
    ++ (if f.isVariadic then ["varargs"] else []) ++ (if f.isHidden then ["hidden"] else [])

/-- The words of the flags, a blank between two. -/
def text (f : Flags) : String := " ".intercalate f.words

/-- The flag that a word names. -/
def ofWord? : String → Option Flags
  | "public" => some { isPublic := true }
  | "protected" => some { isProtected := true }
  | "private" => some { isPrivate := true }
  | "static" => some { isStatic := true }
  | "final" => some { isFinal := true }
  | "abstract" => some { isAbstract := true }
  | "varargs" => some { isVariadic := true }
  | "hidden" => some { isHidden := true }
  | _ => none

end Flags

end Interop
