import Resumption.Proofs.Veil.Murmurs

/-
  What is read of values under a veil: their fields, texts
  and items are the same, and their pictures look the same.

  Only the field of a builder that tells its context rule is
  read otherwise where contexts are hidden.

  Main declarations:
    * `Veil.Sees.property_eq`, `Veil.Sees.text_eq`
    * `Veil.Sees.shade_picture`
    * `Veil.matches_field`
-/

namespace Resumption

open Run

namespace Veil

variable {V : Veil}
variable {α β : Type}
variable {R : α → β → Prop}
variable {s t : Session}

------------------------------------------------------------
-- Texts and Fields
------------------------------------------------------------

namespace Sees

theorem lists_eq
    (h : V.Sees s t) :
    t.lists = s.lists :=
  h.lists.eq

theorem textInside_eq
    (h : V.Sees s t)
    (n : Nat)
    (outer : List Ref)
    (v : Value) :
    t.textInside n outer v = s.textInside n outer v := by
  induction n generalizing outer v with
  | zero => rfl
  | succ n ih =>
      simp only [Session.textInside, h.lists_eq, ih]

/- A text is made of lists alone. -/
theorem text_eq
    (h : V.Sees s t)
    (v : Value) :
    t.text v = s.text v := by
  simp only [Session.text, h.lists_eq, h.textInside_eq]

theorem labelCount_eq
    (h : V.Sees s t)
    (m : Value) :
    t.labelCount m = s.labelCount m := by
  cases m with
  | machine r =>
      have hRow : t.machines.getD r default =
          V.machineRow (s.machines.getD r default) :=
        h.machines.row r
      simp only [Session.labelCount, hRow, machineRow]
  | _ => rfl

theorem settlement_eq
    (h : V.Sees s t)
    (f : Ref) :
    (t.futures.getD f default).settlement =
      (s.futures.getD f default).settlement := by
  have hRow : t.futures.getD f default =
      V.futureRow (s.futures.getD f default) :=
    h.futures.row f
  rw [hRow, futureRow]

theorem futureFields_eq
    (h : V.Sees s t)
    (f : Ref) :
    t.futureFields f = s.futureFields f := by
  simp only [Session.futureFields, h.settlement_eq f]

theorem tagOf_eq
    (h : V.Sees s t)
    (cls : ErrorClass) :
    t.tagOf cls = s.tagOf cls := by
  cases cls with
  | custom c =>
      have hRow : t.classes.getD c default =
          V.classRow (s.classes.getD c default) :=
        h.classes.row c
      simp only [Session.tagOf, hRow, classRow]
  | _ => rfl

/- All but builders have the same fields. -/
theorem fieldsOf_eq
    (h : V.Sees s t)
    {v : Value}
    (hNot : ∀ b, v ≠ .builder b) :
    t.fieldsOf v = s.fieldsOf v := by
  cases v with
  | list r => simp only [Session.fieldsOf, h.lists_eq]
  | errorClass cls => simp only [Session.fieldsOf, h.tagOf_eq]
  | future f => exact h.futureFields_eq f
  | label l =>
      have hRow : t.labels.getD l default =
          V.labelRow (s.labels.getD l default) :=
        h.labels.row l
      simp only [Session.fieldsOf, hRow, labelRow]
  | machine m =>
      simp only [Session.fieldsOf, h.labelCount_eq]
  | builder b => exact (hNot b rfl).elim
  | context c =>
      have hRow : t.contexts.getD c default =
          V.contextRow (s.contexts.getD c default) :=
        h.contexts.row c
      simp only [Session.fieldsOf, hRow, contextRow]
      cases (s.contexts.getD c default).posting <;> rfl
  | deferred d =>
      simp only [Session.fieldsOf, h.deferreds.eq]
  | controlled c =>
      simp only [Session.fieldsOf, h.controlled.eq]
  | usage c => simp only [Session.fieldsOf, h.controlled.eq]
  | iteration i =>
      have hRow : t.iterables.getD i default =
          V.iterableRow (s.iterables.getD i default) :=
        h.iterables.row i
      simp only [Session.fieldsOf, hRow]
      cases s.iterables.getD i default <;> rfl
  | resource r =>
      have hRow : t.resources.getD r default =
          V.resourceRow (s.resources.getD r default) :=
        h.resources.row r
      simp only [Session.fieldsOf, hRow]
      cases s.resources.getD r default <;> rfl
  | collector c =>
      simp only [Session.fieldsOf, h.collectors.eq]
  | _ => rfl

theorem itemsOf_eq
    (h : V.Sees s t)
    (v : Value) :
    t.itemsOf v = s.itemsOf v := by
  cases v with
  | list r => simp only [Session.itemsOf, h.lists_eq]
  | _ => rfl

/- A builder has the same fields but for its context rule. -/
theorem lookup_builder
    (h : V.Sees s t)
    (b : Ref)
    {key : String}
    (hKey : V.contexts = true → key ≠ capturedKey) :
    (t.fieldsOf (.builder b)).lookup key =
      (s.fieldsOf (.builder b)).lookup key := by
  rcases h.builders.row b with ⟨hMachine, hSame⟩
  cases hContexts : V.contexts with
  | false =>
      simp only [Session.fieldsOf, hMachine, hSame hContexts]
  | true =>
      have hOther : (key == capturedKey) = false := by
        simpa using hKey hContexts
      rw [capturedKey] at hOther
      simp only [Session.fieldsOf, hMachine, List.lookup_cons,
        hOther]

/- Fields are the same, unless they tell a context rule. -/
theorem property_eq
    (h : V.Sees s t)
    (v : Value)
    {key : String}
    (hKey : V.contexts = true →
      (∃ b, v = .builder b) → key ≠ capturedKey) :
    t.property? v key = s.property? v key := by
  have hFields : (t.fieldsOf v).lookup key =
      (s.fieldsOf v).lookup key := by
    by_cases hBuilder : ∃ b, v = .builder b
    · rcases hBuilder with ⟨b, rfl⟩
      exact h.lookup_builder b fun hHidden =>
        hKey hHidden ⟨b, rfl⟩
    · rw [h.fieldsOf_eq fun b hb => hBuilder ⟨b, hb⟩]
  simp only [Session.property?, Session.item?, hFields,
    h.itemsOf_eq]

/- Every object has the same names of fields. -/
theorem isSome_property
    (h : V.Sees s t)
    (v : Value)
    (key : String) :
    (t.property? v key).isSome = (s.property? v key).isSome := by
  by_cases hBuilder : ∃ b, v = .builder b
  · rcases hBuilder with ⟨b, rfl⟩
    by_cases hKey : key = capturedKey
    · subst hKey
      simp [Session.property?, Session.fieldsOf, capturedKey,
        List.lookup_cons]
    · rw [h.property_eq _ fun _ _ => hKey]
  · rw [h.property_eq _ fun _ hb => (hBuilder hb).elim]

end Sees

------------------------------------------------------------
-- Pictures
------------------------------------------------------------

variable (V) in
/- Fields of a picture, as far as they are seen. -/
def shades
    (fields : List (String × Datum)) : List (String × Datum) :=
  fields.map fun field => (field.1, V.shade field.2)

theorem blurredItems_eq
    (items : List Datum) :
    Datum.blurredItems items = items.map Datum.blurred := by
  induction items with
  | nil => rfl
  | cons d rest ih => simp [Datum.blurredItems, ih]

theorem blurredFields_eq
    (fields : List (String × Datum)) :
    Datum.blurredFields fields =
      fields.map fun field => (field.1, field.2.blurred) := by
  induction fields with
  | nil => rfl
  | cons field rest ih =>
      rcases field with ⟨key, d⟩
      simp [Datum.blurredFields, ih]

theorem shade_of_seen
    (h : V.contexts = false)
    (d : Datum) :
    V.shade d = d := by
  simp [shade, h]

theorem shade_list
    (items : List Datum) :
    V.shade (.list items) = .list (items.map V.shade) := by
  by_cases h : V.contexts = true
  · simp [shade, h, Datum.blurred, blurredItems_eq]
  · have hSeen : V.shade = id :=
      funext fun d => shade_of_seen (by simpa using h) d
    simp [hSeen]

/- A record looks as its fields do. -/
theorem shade_record
    {fields fields' : List (String × Datum)}
    (h : V.shades fields' = V.shades fields) :
    V.shade (.record fields') = V.shade (.record fields) := by
  by_cases hHidden : V.contexts = true
  · have hBlurred : Datum.blurredFields fields' =
        Datum.blurredFields fields := by
      simpa [blurredFields_eq, shades, shade, hHidden] using h
    simp [shade, hHidden, Datum.blurred, hBlurred]
  · have hSeen : V.shade = id := funext fun d =>
      shade_of_seen (by simpa using hHidden) d
    have hSame : fields' = fields := by
      simpa [shades, hSeen] using h
    rw [hSame]

theorem shades_cons
    {key : String}
    {d d' : Datum}
    {fields fields' : List (String × Datum)}
    (hd : V.shade d' = V.shade d)
    (h : V.shades fields' = V.shades fields) :
    V.shades ((key, d') :: fields') =
      V.shades ((key, d) :: fields) := by
  simp only [shades, List.map_cons, hd]
  exact congrArg _ h

theorem shades_append
    {fields fields' more more' : List (String × Datum)}
    (h : V.shades fields' = V.shades fields)
    (h' : V.shades more' = V.shades more) :
    V.shades (fields' ++ more') =
      V.shades (fields ++ more) := by
  simp only [shades, List.map_append] at h h' ⊢
  rw [h, h']

/- The same fields are chosen by their names. -/
theorem shades_filter
    {fields fields' : List (String × Datum)}
    (h : V.shades fields' = V.shades fields)
    (chosen : String → Bool) :
    V.shades (fields'.filter fun f => chosen f.1) =
      V.shades (fields.filter fun f => chosen f.1) := by
  have hMap : ∀ fs : List (String × Datum),
      V.shades (fs.filter fun f => chosen f.1) =
        (V.shades fs).filter fun f => chosen f.1 := by
    intro fs
    simp only [shades, List.filter_map, Function.comp_def]
  rw [hMap, hMap, h]

theorem shade_marked
    {kind : String}
    {fields fields' : List (String × Datum)}
    (h : V.shades fields' = V.shades fields) :
    V.shade (.marked kind fields') =
      V.shade (.marked kind fields) :=
  shade_record (shades_cons rfl h)

section Pictures

variable {inner inner' : Value → Datum}

theorem shades_through
    (hInner : ∀ v, V.shade (inner' v) = V.shade (inner v))
    (fields : Fields) :
    V.shades (through inner' fields) =
      V.shades (through inner fields) := by
  simp only [shades, through, List.map_map]
  refine List.map_congr_left fun field _ => ?_
  simp [hInner]

/- A builder looks the same but for its context rule. -/
theorem shade_builder
    (h : V.Sees s t)
    (hInner : ∀ v, V.shade (inner' v) = V.shade (inner v))
    (b : Ref) :
    V.shade (t.pictureWith inner' (.builder b)) =
      V.shade (s.pictureWith inner (.builder b)) := by
  rcases h.builders.row b with ⟨hMachine, hSame⟩
  cases hContexts : V.contexts with
  | false =>
      simp only [Session.pictureWith, hMachine, hSame hContexts,
        h.labelCount_eq]
      exact shade_marked (shades_cons rfl
        (shades_cons (hInner _) rfl))
  | true =>
      simp only [Session.pictureWith, hMachine,
        h.labelCount_eq]
      simp [shade, hContexts, Datum.marked, Datum.blurred,
        Datum.blurredFields, Datum.unruled]

mutual

/- A value looks the same if what it refers to does. -/
theorem shade_pictureWith
    (h : V.Sees s t)
    (hInner : ∀ v, V.shade (inner' v) = V.shade (inner v)) :
    ∀ v, V.shade (t.pictureWith inner' v) =
      V.shade (s.pictureWith inner v)
  | .undefined => rfl
  | .null => rfl
  | .bool _ => rfl
  | .int _ => rfl
  | .str _ => rfl
  | .list r => by
      simp only [Session.pictureWith, h.lists_eq, shade_list,
        List.map_map]
      exact congrArg _ (List.map_congr_left fun v _ => hInner v)
  | .record _ fields => by
      have hShown := shades_fieldsWith h hInner fields
      simp only [Session.pictureWith]
      split
      · refine shade_marked ?_
        split
        · have hNamed := shades_filter hShown (· == "name")
          simp only [shades, List.map_take] at hNamed ⊢
          rw [hNamed]
        · rfl
      · rfl
      · exact shade_record hShown
  | .error _ kind message cause => by
      simp only [Session.pictureWith]
      exact shade_marked (shades_append rfl
        (shades_causeWith h hInner cause))
  | .tagged _ _ tag message props cause => by
      have hTag := shade_pictureWith h hInner tag
      simp only [Session.pictureWith]
      refine shade_marked (shades_append (shades_append ?_ ?_)
        (shades_causeWith h hInner cause))
      · exact shades_cons hTag rfl
      · exact shades_cons hTag
          (shades_cons (shade_pictureWith h hInner props) rfl)
  | .errorClass _ => rfl
  | .function _ => rfl
  | .future f => by
      simp only [Session.pictureWith, h.futureFields_eq]
      exact shade_marked (shades_through hInner _)
  | .promise _ => rfl
  | .label l => by
      have hRow : t.labels.getD l default =
          V.labelRow (s.labels.getD l default) :=
        h.labels.row l
      simp only [Session.pictureWith, hRow, labelRow]
      exact shade_marked (shades_through hInner _)
  | .machine m => by
      simp only [Session.pictureWith, h.labelCount_eq]
  | .builder b => shade_builder h hInner b
  | .awaiter _ => rfl
  | .awaitable _ => rfl
  | .context c => by
      have hRow : t.contexts.getD c default =
          V.contextRow (s.contexts.getD c default) :=
        h.contexts.row c
      simp only [Session.pictureWith, hRow, contextRow]
      exact shade_marked (shades_through hInner _)
  | .counting i => by
      simp only [Session.pictureWith]
      rw [h.fieldsOf_eq (by simp)]
      exact shade_record (shades_through hInner _)
  | .usage c => by
      simp only [Session.pictureWith]
      rw [h.fieldsOf_eq (by simp)]
      exact shade_record (shades_through hInner _)
  | .iteration i => by
      simp only [Session.pictureWith]
      rw [h.fieldsOf_eq (by simp)]
      exact shade_record (shades_through hInner _)
  | .deferred _ => rfl
  | .controlled _ => rfl
  | .resource _ => rfl
  | .iterable _ => rfl
  | .collector _ => rfl
  | .thenable _ => rfl

theorem shades_fieldsWith
    (h : V.Sees s t)
    (hInner : ∀ v, V.shade (inner' v) = V.shade (inner v)) :
    ∀ fields : Fields,
      V.shades (t.fieldsWith inner' fields) =
        V.shades (s.fieldsWith inner fields)
  | [] => rfl
  | field :: rest => by
      have hField := shade_fieldWith h hInner field
      simp only [Session.fieldsWith]
      simp only [shades, List.map_cons] at hField ⊢
      rw [hField]
      exact congrArg _ (shades_fieldsWith h hInner rest)

theorem shade_fieldWith
    (h : V.Sees s t)
    (hInner : ∀ v, V.shade (inner' v) = V.shade (inner v)) :
    ∀ field : String × Value,
      ((t.fieldWith inner' field).1,
          V.shade (t.fieldWith inner' field).2) =
        ((s.fieldWith inner field).1,
          V.shade (s.fieldWith inner field).2)
  | (key, v) =>
      congrArg (key, ·) (shade_pictureWith h hInner v)

theorem shades_causeWith
    (h : V.Sees s t)
    (hInner : ∀ v, V.shade (inner' v) = V.shade (inner v)) :
    ∀ cause : Option Value,
      V.shades (t.causeWith inner' cause) =
        V.shades (s.causeWith inner cause)
  | none => rfl
  | some cause =>
      shades_cons (shade_pictureWith h hInner cause) rfl

end

end Pictures

namespace Sees

theorem shade_pictureWithin
    (h : V.Sees s t)
    (n : Nat)
    (v : Value) :
    V.shade (t.pictureWithin n v) =
      V.shade (s.pictureWithin n v) := by
  induction n generalizing v with
  | zero => rfl
  | succ n ih => exact shade_pictureWith h ih v

/- Whatever a value is, it looks the same. -/
theorem shade_picture
    (h : V.Sees s t)
    (v : Value) :
    V.shade (t.picture v) = V.shade (s.picture v) := by
  have hSize : t.population = s.population := by
    simp only [Session.population, h.lists.size, h.futures.size,
      h.labels.size, h.contexts.size, h.builders.size]
  simp only [Session.picture, hSize]
  exact h.shade_pictureWithin _ v

end Sees

theorem matches_picture
    (v : Value) :
    V.Matches (fun d d' => V.shade d' = V.shade d)
      (picture v) (picture v) :=
  matches_read fun _ _ hSees => hSees.shade_picture v

theorem matches_pictureFields
    (fields : Fields) :
    V.Matches (fun fs fs' => V.shades fs' = V.shades fs)
      (pictureFields fields) (pictureFields fields) :=
  matches_get_bind (fun _ => goes_pure _) fun _ _ hSees =>
    matches_pure (shades_through hSees.shade_picture fields)

------------------------------------------------------------
-- Reading in Runs
------------------------------------------------------------

theorem matches_text
    (v : Value) :
    V.Matches Eq (text v) (text v) :=
  matches_read fun _ _ hSees => (hSees.text_eq v).symm

theorem goes_typeError :
    Goes (typeError : Run α) :=
  (matches_typeError (V := ⟨false, false, false⟩)
    (R := fun _ (_ : Unit) => True)).goes

theorem goes_field
    (v : Value)
    (key : String) :
    Goes (field v key) := by
  unfold field
  split
  · exact goes_typeError
  · exact goes_get_bind fun _ => goes_pure _

/- Reading a field matches, unless it tells a context rule. -/
theorem matches_field
    {key : String}
    (v : Value)
    (hKey : V.contexts = true →
      (∃ b, v = .builder b) → key ≠ capturedKey) :
    V.Matches Eq (field v key) (field v key) := by
  unfold field
  split
  · exact matches_typeError
  · refine matches_read fun s t hSees => ?_
    rw [hSees.property_eq v hKey]

theorem matches_hasField
    (v : Value)
    (key : String) :
    V.Matches Eq (hasField v key) (hasField v key) := by
  unfold hasField
  split
  · exact matches_read fun _ _ hSees =>
      (hSees.isSome_property v key).symm
  · exact matches_typeError

theorem matches_unwrap
    (result : Value) :
    V.Matches Eq (unwrap result) (unwrap result) := by
  unfold unwrap
  refine (matches_field result (by simp [capturedKey])).bind
    fun ok => ?_
  split
  · exact matches_field result (by simp [capturedKey])
  · exact (matches_field result (by simp [capturedKey])).bind
      fun e => matches_raise e

theorem matches_itemsOf
    (v : Value) :
    V.Matches Eq (itemsOf v) (itemsOf v) := by
  unfold itemsOf
  split
  · exact matches_typeError
  · exact matches_read fun _ _ hSees => (hSees.itemsOf_eq v).symm

theorem matches_listOf
    (l : Value) :
    V.Matches Eq (listOf l) (listOf l) := by
  unfold listOf
  split
  · exact matches_pure rfl
  · exact matches_typeError

------------------------------------------------------------
-- Errors
------------------------------------------------------------

theorem matches_newDefect
    (d : Defect) :
    V.Matches Eq (newDefect d) (newDefect d) := by
  have hMade : ∀ made : Stamp → Value,
      V.Matches Eq (freshStamp >>= fun id => pure (made id))
        (freshStamp >>= fun id => pure (made id)) :=
    fun _ => matches_freshStamp.bind fun _ => matches_pure rfl
  refine (matches_newRecord d.props).bind fun props => ?_
  refine matches_get_bind (fun s => (hMade _).goes)
    fun s t hSees => ?_
  have hText : t.text = s.text := funext hSees.text_eq
  rw [hSees.tagOf_eq, hText]
  exact hMade _

theorem matches_defect
    {R : α → β → Prop}
    (d : Defect) :
    V.Matches R (defect d : Run α) (defect d : Run β) :=
  (matches_newDefect d).bind fun e => matches_raise e

theorem matches_messageText
    (v : Value) :
    V.Matches Eq (messageText v) (messageText v) := by
  unfold messageText
  split
  · exact matches_pure rfl
  · exact matches_text v

theorem matches_newPlain
    (message : Value)
    (cause : Option Value) :
    V.Matches Eq (newPlain message cause)
      (newPlain message cause) :=
  (matches_messageText message).bind fun _ =>
    matches_freshStamp.bind fun _ => matches_pure rfl

theorem matches_causeOf
    (options : Value) :
    V.Matches Eq (causeOf options) (causeOf options) := by
  unfold causeOf
  split
  · exact matches_pure rfl
  · refine (matches_field options (by simp [capturedKey])).bind
      fun cause => ?_
    split
    · exact matches_pure rfl
    · exact matches_pure rfl

/- No message is made of a context rule. -/
theorem wording_congr
    {prop prop' : String → Value}
    (h : ∀ key, key ≠ capturedKey → prop' key = prop key)
    (cls : ErrorClass)
    (text : Value → String) :
    cls.wording prop' text = cls.wording prop text := by
  have hReason := h "reason" (by simp [capturedKey])
  have hLabel := h "label" (by simp [capturedKey])
  have hReceived := h "received" (by simp [capturedKey])
  have hOperation := h "operation" (by simp [capturedKey])
  delta ErrorClass.wording
  cases cls with
  | labelError =>
      dsimp only
      rw [hReason, hLabel]
  | stepShape =>
      dsimp only
      rw [hLabel, hReceived]
  | notCompleted =>
      dsimp only
      rw [hOperation]
  | custom c => rfl

variable (V) in
/-
  Calls by the one caller match calls by the other, and code
  that only records only murmurs.
-/
structure Serves (caller caller' : Caller) : Prop where
  rounds : caller'.rounds = caller.rounds
  ready : V.contexts = true → caller.rounds ≠ 0
  call : ∀ closure args,
    V.Matches Eq (caller.call closure args)
      (caller'.call (V.closure closure) args)
  records : ∀ code args, (code args).Records →
    Murmurs (caller.call (.client code) args)

variable {c c' : Caller}

theorem matches_taggedMessage
    (hc : V.Serves c c')
    (cls : ErrorClass)
    (props : Value) :
    V.Matches Eq (taggedMessage c cls props)
      (taggedMessage c' cls props) := by
  have hWording : ∀ cls : ErrorClass,
      V.Matches Eq
        (if props.isMissing then typeError
          else do
            let s ← get
            let prop key :=
              (s.property? props key).getD .undefined
            return cls.wording prop s.text : Run String)
        (if props.isMissing then typeError
          else do
            let s ← get
            let prop key :=
              (s.property? props key).getD .undefined
            return cls.wording prop s.text) := by
    intro cls
    split
    · exact matches_typeError
    · refine matches_read fun s t hSees => ?_
      have hText : t.text = s.text := funext hSees.text_eq
      rw [hText]
      refine (wording_congr (fun key hKey => ?_) cls _).symm
      rw [hSees.property_eq props fun _ _ => hKey]
  cases cls with
  | custom r =>
      refine column_classes.row_bind ?_
      rintro cell _ rfl
      simp only [classRow]
      cases cell.message with
      | none =>
          refine column_classes.row_bind ?_
          rintro cell _ rfl
          exact matches_messageText _
      | some code =>
          exact (hc.call code _).bind fun v =>
            matches_messageText v
  | labelError => exact hWording _
  | stepShape => exact hWording _
  | notCompleted => exact hWording _

theorem matches_newTagged
    (hc : V.Serves c c')
    (cls : ErrorClass)
    (props options : Value) :
    V.Matches Eq (newTagged c cls props options)
      (newTagged c' cls props options) := by
  refine (matches_taggedMessage hc cls props).bind
    fun message => ?_
  refine (matches_causeOf options).bind fun cause => ?_
  refine matches_freshStamp.bind fun id => ?_
  refine matches_read fun s t hSees => ?_
  rw [hSees.tagOf_eq]

theorem matches_construct
    (hc : V.Serves c c')
    (cls props options : Value) :
    V.Matches Eq (construct c cls props options)
      (construct c' cls props options) := by
  cases cls with
  | errorClass cls => exact matches_newTagged hc cls props options
  | _ => exact matches_typeError

theorem matches_defineClass
    (tag : Value)
    (message : Option Closure) :
    V.Matches Eq (defineClass tag message)
      (defineClass tag (message.map V.closure)) :=
  (column_classes.alloc rfl).bind fun _ => matches_pure rfl

end Veil

end Resumption
