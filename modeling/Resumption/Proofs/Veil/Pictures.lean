import Resumption.Proofs.Veil

/-
  Pictures without builders: nothing is lost of them where
  context rules are hidden.

  Main declarations:
    * `Datum.eq_of_blurred_eq`
-/

namespace Resumption

namespace Datum

------------------------------------------------------------
-- Kinds
------------------------------------------------------------

/- Are these the fields of the picture of a builder? -/
def DepictsBuilder (fields : List (String × Datum)) : Prop :=
  fields.lookup "$" = some (.str "builder")

theorem unruled_of_not
    {fields : List (String × Datum)}
    (h : ¬ DepictsBuilder fields) :
    unruled fields = fields := by
  unfold unruled
  split
  · next hKind => exact (h hKind).elim
  · rfl

/- A field that is kept can still be read. -/
theorem lookup_filter
    (fields : List (String × Datum))
    (chosen : String → Bool)
    (key : String)
    (h : chosen key = true) :
    (fields.filter fun f => chosen f.1).lookup key =
      fields.lookup key := by
  induction fields with
  | nil => rfl
  | cons field rest ih =>
      rcases field with ⟨key', d⟩
      by_cases hKey : key = key'
      · subst hKey
        simp [h]
      · have hOther : (key == key') = false := by
          simpa using hKey
        simp only [List.filter_cons, List.lookup_cons, hOther]
        split
        · rw [List.lookup_cons, hOther]
          exact ih
        · exact ih

/- What is depicted can still be told. -/
theorem depictsBuilder_unruled
    (fields : List (String × Datum)) :
    DepictsBuilder (unruled fields) ↔ DepictsBuilder fields := by
  by_cases hKind : DepictsBuilder fields
  · have hSame : unruled fields =
        fields.filter fun f => f.1 != "captured" := by
      rw [DepictsBuilder] at hKind
      simp [unruled, hKind]
    have hLookup :=
      lookup_filter fields (· != "captured") "$" (by simp)
    rw [DepictsBuilder, hSame, hLookup]
    rfl
  · rw [unruled_of_not hKind]

theorem lookup_blurredFields
    (fields : List (String × Datum))
    (key : String) :
    (blurredFields fields).lookup key =
      (fields.lookup key).map blurred := by
  induction fields with
  | nil => rfl
  | cons field rest ih =>
      rcases field with ⟨key', d⟩
      simp only [blurredFields, List.lookup_cons, ih]
      split <;> rfl

theorem depictsBuilder_blurredFields
    (fields : List (String × Datum)) :
    DepictsBuilder (blurredFields fields) ↔
      DepictsBuilder fields := by
  unfold DepictsBuilder
  rw [lookup_blurredFields, Option.map_eq_some_iff]
  refine ⟨?_, fun h => ⟨_, h, rfl⟩⟩
  rintro ⟨d, hLookup, hBlurred⟩
  cases d with
  | str text => rw [hLookup, ← hBlurred]; rfl
  | _ => simp [blurred] at hBlurred

theorem ruleless_record
    {fields : List (String × Datum)}
    (h : (record fields).ruleless = true) :
    ¬ DepictsBuilder fields ∧
      rulelessFields fields = true := by
  unfold ruleless at h
  split at h
  · cases h
  · next hKind => exact ⟨hKind, h⟩

------------------------------------------------------------
-- Pictures
------------------------------------------------------------

mutual

/-
  A picture without builders is the only one that looks as
  it does.
-/
theorem eq_of_blurred_eq :
    ∀ {d d' : Datum}, d.ruleless = true →
      d'.blurred = d.blurred → d' = d
  | .null, d', _, h => by cases d' <;> simp_all [blurred]
  | .bool _, d', _, h => by cases d' <;> simp_all [blurred]
  | .int _, d', _, h => by cases d' <;> simp_all [blurred]
  | .str _, d', _, h => by cases d' <;> simp_all [blurred]
  | .list items, d', hPlain, h => by
      cases d' with
      | list items' =>
          have hItems : blurredItems items' =
              blurredItems items := by
            simpa [blurred] using h
          rw [eq_of_blurredItems_eq hPlain hItems]
      | _ => simp [blurred] at h
  | .record fields, d', hPlain, h => by
      cases d' with
      | record fields' =>
          rcases ruleless_record hPlain with ⟨hKind, hFields⟩
          have hBlurred :
              ¬ DepictsBuilder (blurredFields fields) := by
            rwa [depictsBuilder_blurredFields]
          have hSame : unruled (blurredFields fields') =
              blurredFields fields := by
            rw [← unruled_of_not hBlurred]
            simpa [blurred] using h
          have hKind' :
              ¬ DepictsBuilder (blurredFields fields') := by
            rwa [← depictsBuilder_unruled, hSame]
          rw [unruled_of_not hKind'] at hSame
          rw [eq_of_blurredFields_eq hFields hSame]
      | _ => simp [blurred] at h

theorem eq_of_blurredItems_eq :
    ∀ {items items' : List Datum},
      rulelessItems items = true →
      blurredItems items' = blurredItems items →
        items' = items
  | [], items', _, h => by
      cases items' <;> simp_all [blurredItems]
  | d :: rest, items', hPlain, h => by
      cases items' with
      | nil => simp [blurredItems] at h
      | cons d' rest' =>
          simp only [blurredItems, List.cons.injEq] at h
          simp only [rulelessItems, Bool.and_eq_true] at hPlain
          rw [eq_of_blurred_eq hPlain.1 h.1,
            eq_of_blurredItems_eq hPlain.2 h.2]

theorem eq_of_blurredFields_eq :
    ∀ {fields fields' : List (String × Datum)},
      rulelessFields fields = true →
      blurredFields fields' = blurredFields fields →
        fields' = fields
  | [], fields', _, h => by
      cases fields' <;> simp_all [blurredFields]
  | (key, d) :: rest, fields', hPlain, h => by
      cases fields' with
      | nil => simp [blurredFields] at h
      | cons field' rest' =>
          rcases field' with ⟨key', d'⟩
          simp only [blurredFields, List.cons.injEq,
            Prod.mk.injEq] at h
          simp only [rulelessFields, Bool.and_eq_true] at hPlain
          rw [h.1.1, eq_of_blurred_eq hPlain.1 h.1.2,
            eq_of_blurredFields_eq hPlain.2 h.2]

end

end Datum

end Resumption
