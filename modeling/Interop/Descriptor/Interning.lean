import Interop.Descriptor.Basic

/-!
# One flag for each interface

An interface is one type whatever is said about it, so its functional flag is settled by the first mention of its
name, and every later mention gets that flag.
-/

namespace Interop

/-- The interfaces mentioned so far, with the flag of each. -/
structure Interfaces where
  flags : List (String × Bool) := []
  deriving Repr, Inhabited

/-- The descriptor of an interface, and the interfaces mentioned afterwards. -/
def Interfaces.mention (known : Interfaces) (name : String) (functional : Bool) : Descriptor × Interfaces :=
  match known.flags.lookup name with
  | some settled => (.interface name settled, known)
  | none => (.interface name functional, ⟨known.flags ++ [(name, functional)]⟩)

end Interop
