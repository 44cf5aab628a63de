import Resumption.Value

/-
  This file defines the protocol's defects and the wording
  of their messages.

  A defect says that labels, steps or awaiters were used
  against the protocol.  It is never handed to a recovery
  handler, which is what `Value.isDefect` decides.

  Key definitions include:
    * `Value.describe`
    * `Defect`
    * `Defect.cls`
    * `Defect.props`
    * `ErrorClass.wording`
-/

namespace Resumption

------------------------------------------------------------
-- Describing Values
------------------------------------------------------------

/- What a message calls a value that should have been a step. -/
def Value.describe : Value → String
  | .undefined => "undefined"
  | .null => "null"
  | .bool _ => "a boolean"
  | .int _ => "a number"
  | .str _ => "a string"
  | .list _ => "an array"
  | .function _ => "a function"
  | .errorClass _ => "a function"
  | _ => "an object"

------------------------------------------------------------
-- Defects
------------------------------------------------------------

/- The ways in which the protocol can be violated. -/
inductive Defect where
  | foreignLabel (label : Value)
  | uninstalledLabel (label : Value)
  | malformedStep (label received : Value)
  | notCompleted (operation : String)

namespace Defect

/- The class that a defect is an instance of. -/
def cls : Defect → ErrorClass
  | .foreignLabel _ => .labelError
  | .uninstalledLabel _ => .labelError
  | .malformedStep _ _ => .stepShape
  | .notCompleted _ => .notCompleted

/- The properties that a defect carries. -/
def props : Defect → Fields
  | .foreignLabel l =>
      [("label", l), ("reason", .str "foreign")]
  | .uninstalledLabel l =>
      [("label", l), ("reason", .str "uninstalled")]
  | .malformedStep l v => [("label", l), ("received", v)]
  | .notCompleted op => [("operation", .str op)]

/- Every defect is of a class that counts as a defect. -/
theorem isDefect_cls (d : Defect) :
    d.cls.isDefect = true := by
  cases d <;> rfl

end Defect

------------------------------------------------------------
-- Wording
------------------------------------------------------------

/- The tag of a protocol class; other classes name their own. -/
def ErrorClass.tag? : ErrorClass → Option String
  | .labelError => some "LabelError"
  | .stepShape => some "StepShapeError"
  | .notCompleted => some "FutureNotCompletedError"
  | .custom _ => none

/-
  The message of a protocol class, from its properties and
  from the way values are written inside a text.
-/
def ErrorClass.wording
    (cls : ErrorClass)
    (prop : String → Value)
    (text : Value → String) : String :=
  match cls with
  | .labelError =>
      if (prop "reason").same (.str "foreign") then
        "LabelError: label " ++ text (prop "label")
          ++ " does not belong to this state machine"
      else
        "LabelError: label " ++ text (prop "label")
          ++ " has no continuation installed"
  | .stepShape =>
      "StepShapeError: label " ++ text (prop "label")
        ++ " produced " ++ (prop "received").describe
        ++ ", expected a step"
  | .notCompleted =>
      "FutureNotCompletedError: " ++ text (prop "operation")
        ++ " called before the future completed"
  | .custom _ => ""

end Resumption
