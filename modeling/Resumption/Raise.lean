import Resumption.Property

/-
  This file defines how errors come to be: defects raised by
  the library, and errors that client code constructs.

  Key definitions include:
    * `Run.newDefect`
    * `Run.defect`
    * `Run.newPlain`
    * `Run.newTagged`
    * `Run.defineClass`
-/

namespace Resumption

namespace Run

------------------------------------------------------------
-- Defects
------------------------------------------------------------

/- The error object of a defect. -/
def newDefect (d : Defect) : Run Value := do
  let props ← newRecord d.props
  let s ← get
  let message :=
    d.cls.wording
      (fun key => (props.own? key).getD .undefined)
      s.text
  return .tagged (← freshStamp) d.cls (s.tagOf d.cls) message
    props none

/- Throw a defect. -/
def defect
    {α : Type}
    (d : Defect) : Run α := do
  raise (← newDefect d)

------------------------------------------------------------
-- Errors of Client Code
------------------------------------------------------------

/- The text of an error's message; an undefined one is blank. -/
def messageText (v : Value) : Run String :=
  match v with
  | .undefined => return ""
  | _ => text v

/- A plain error. -/
def newPlain
    (message : Value)
    (cause : Option Value) : Run Value := do
  let message ← messageText message
  return .error (← freshStamp) .plain message cause

/- The cause among the options of a construction. -/
def causeOf (options : Value) : Run (Option Value) := do
  if options.isMissing then return none
  match ← field options "cause" with
  | .undefined => return none
  | cause => return some cause

/-
  The message of an instance of a tagged class, made from
  the properties: by the protocol's wording, by the class's
  own code, or else it is the text of the tag.
-/
def taggedMessage
    (caller : Caller)
    (cls : ErrorClass)
    (props : Value) : Run String := do
  match cls with
  | .custom c =>
      match (← Table.classes.row c).message with
      | none => messageText (← Table.classes.row c).tag
      | some code => messageText (← caller.call code [props])
  | _ =>
      if props.isMissing then typeError
      else
        let s ← get
        let prop key :=
          (s.property? props key).getD .undefined
        return cls.wording prop s.text

/- An instance of a tagged class. -/
def newTagged
    (caller : Caller)
    (cls : ErrorClass)
    (props options : Value) : Run Value := do
  let message ← taggedMessage caller cls props
  let cause ← causeOf options
  return .tagged (← freshStamp) cls ((← get).tagOf cls) message
    props cause

/- Construct an instance of a class given as a value. -/
def construct
    (caller : Caller)
    (cls props options : Value) : Run Value :=
  match cls with
  | .errorClass c => newTagged caller c props options
  | _ => typeError

/- A new class of tagged errors; its tag is kept as it is. -/
def defineClass
    (tag : Value)
    (message : Option Closure) : Run Value := do
  return .errorClass
    (.custom (← Table.classes.alloc ⟨tag, message⟩))

end Run

end Resumption
