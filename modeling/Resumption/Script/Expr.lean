import Resumption.Datum

/-
  This file defines the expressions that scripts are made of.

  A few forms bind variables or choose what to evaluate.
  All others are nodes: a verb, the expressions that are
  evaluated first, and the bodies that are passed as code.

  Key definitions include:
    * `Verb`
    * `Expr`
    * `Body`
-/

namespace Resumption

namespace Script

------------------------------------------------------------
-- Verbs
------------------------------------------------------------

/- What a node does with its arguments and its bodies. -/
inductive Verb where
  -- Objects
  | object (keys : List String)
  | newList
  | push
  | length
  | field
  | hasField
  | property (key : String)
  | add
  | subtract
  | less
  | same
  | concat
  | call
  | log
  | readGlobal
  | writeGlobal
  -- Results and errors
  | ok
  | err
  | isErr
  | unwrap
  | newError
  | defineTagged
  | newTagged
  | instanceOf
  | newDefect
  | isDefect
  | isLabelError
  | isStepShapeError
  | isFutureNotCompletedError
  | isTagged
  -- Labels and steps
  | newMachine
  | allocate
  | install
  | replace
  | jump
  | labelCount
  | forgeLabel
  | zero
  | ret
  | returnFrom
  | stepAwait
  | isStep
  -- Awaiting and constructs
  | bind
  | bindDetached
  | awaitResult
  | sequence
  | whileLoop
  | forLoop
  | tryWith
  | tryFinally
  | using
  -- Tasks and builders
  | run
  | task
  | detachedTask
  | newBuilder
  | builderZero
  | builderRet
  | builderReturnFrom
  | builderDelay
  -- Futures and awaiters
  | newFuture
  | newPromise
  | resolve
  | reject
  | resolvedFuture
  | rejectedFuture
  | futureOf
  | awaiterOf
  | configureAwait
  | isCompleted
  | getResult
  | onCompleted
  | react
  | isAwaitable
  | isConfigurable
  | toAwaitable
  | isFuture
  | customAwaitable
  | configurable
  | thenable
  -- Resume contexts
  | recordingContext
  | customContext
  | post
  | runInContext
  | currentContext
  | resumeOn
  -- Probes
  | controlled
  | complete
  | fail
  | stats
  | yieldFuture
  | failLater
  | countingIterable
  | drain
  | customIterable
  | trackedResource
  | customResource
  | dispose
  | newCollector
  | eventTypes
  deriving Inhabited

------------------------------------------------------------
-- Expressions
------------------------------------------------------------

mutual

/- An expression. -/
inductive Expr where
  | undefined
  | quote (d : Datum)
  | var (x : String)
  | bindVar (x : String) (e body : Expr)
  | inOrder (es : List Expr)
  | choose (condition yes no : Expr)
  | lambda (body : Body)
  | handle (e : Expr) (x : String) (handler : Expr)
  | throwing (e : Expr)
  | node (verb : Verb) (args : List Expr) (bodies : List Body)

/-
  A body: an expression over parameters.  A body that a node
  can do without may be absent.
-/
inductive Body where
  | absent
  | code (params : List String) (e : Expr)

end

instance : Inhabited Expr :=
  ⟨.undefined⟩

------------------------------------------------------------
-- Scripts
------------------------------------------------------------

/- A stage of a script: run the jobs, or evaluate. -/
inductive Stage where
  | flush
  | evaluate (e : Expr)

end Script

end Resumption
