import Interop.Proxy.Wrap

/-!
# Texts of values

`displayNative` is the text of a native value and `displayScript` the text of a script value. Containers show their
elements, and a handle or an adapter shows the script value behind it, so texts follow references; following more of
them than there are objects means that an object contains itself, and its text has no end. The text of a proxy looks
up its members first, like every use of a proxy as a primitive.
-/

namespace Interop

mutual

def displayNativeWithin : Nat → Native → Eval String
  | 0, v =>
    match v.inlineText? with
    | some text => pure text
    | none => throw .diverged
  | n + 1, v =>
    match v with
    | .object r => do
      match (← get).native r with
      | .array a => do
        let parts ← a.elements.mapM (displayNativeWithin n)
        pure ("[" ++ ", ".intercalate parts ++ "]")
      | .list l => do
        let parts ← l.elements.mapM (displayNativeWithin n)
        pure ("[" ++ ", ".intercalate parts ++ "]")
      | .map m => do
        let parts ← m.entries.mapM fun (key, value) => do
          let keyText ← displayNativeWithin n key
          let valueText ← displayNativeWithin n value
          pure (keyText ++ "=" ++ valueText)
        pure ("\x7b" ++ ", ".intercalate parts ++ "\x7d")
      | .constant _ _ name => pure name
      | .classRef type => pure ("class " ++ type.signature)
      | .record typeName display _ => pure (display.getD typeName)
      | .handle value => displayScriptWithin n value
      | .adapter target _ _ _ => displayScriptWithin n target
    | _ => pure (v.inlineText?.getD "")

def displayScriptWithin : Nat → Script → Eval String
  | _, .undefined => pure "undefined"
  | _, .null => pure "null"
  | _, .boolean b => pure (if b then "true" else "false")
  | _, .number x => pure x.scriptText
  | _, .string s => pure s
  | _, .callable r => do pure ("function " ++ ((← get).function r).name ++ "() \x7b [native code] \x7d")
  | 0, .object _ => throw .diverged
  | n + 1, .object r => do
    match (← get).object r with
    | .plain _ => pure "[object Object]"
    | .array elements => do
      let parts ← elements.mapM fun v => if v.isNullish then pure "" else displayScriptWithin n v
      pure (",".intercalate parts)
    | .proxy p => do
      match p.kind with
      | .ofArray => pure ()
      | .ofClass => pure ()
      | _ => let _ ← Eval.attempt (Eval.proxyMembers r p)
      displayNativeWithin n p.value

end

/-- The text of a native value. -/
def displayNative (v : Native) : Eval String := do displayNativeWithin (← get).depth v

/-- The text of a script value. -/
def displayScript (v : Script) : Eval String := do displayScriptWithin (← get).depth v

/-- A short description of a script value for diagnostics. -/
def describe (v : Script) : Eval String := do
  match v with
  | .string s => pure (Text.quote s)
  | .object r =>
    match (← get).object r with
    | .proxy p => do pure ("native " ++ (← displayNative p.value))
    | o => pure ("[object " ++ o.className ++ "]")
  | _ => displayScript v

/-- A script value with its kind, for developers. -/
def Store.debugText (s : Store) : Script → String
  | .undefined => "Undefined"
  | .null => "Null"
  | .boolean b => "Boolean(" ++ (if b then "true" else "false") ++ ")"
  | .number x => "Number(" ++ x.text ++ ")"
  | .string t => "String(" ++ Text.quote t ++ ")"
  | .object r => "Object(" ++ (s.object r).className ++ ")"
  | .callable r => "Callable(" ++ (s.function r).name ++ ")"

/-- The value does not fit the type. -/
def cannotConvert (v : Script) (d : Descriptor) : Eval α := do
  Eval.fail (.conversion (← describe v) d.signature)

end Interop
