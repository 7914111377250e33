import Mathlib.Data.List.Forall2

/-!
# When a sequence of questions succeeds

A computation in `Except` answers its questions one after the other and gives up at the first that
has no good answer.  These lemmas say when such a sequence succeeds, without a word on how it fails.

Several of the questions ask whether a name is new, and remember the name if it is.  `Fresh` is what
a list of names has to be for that to succeed with all of them.
-/

namespace ValidatorGen

theorem bind_eq_ok_iff {ε α β : Type} {first : Except ε α} {next : α → Except ε β} {result : β} :
    first >>= next = .ok result ↔ ∃ value, first = .ok value ∧ next value = .ok result := by
  cases first <;> simp [bind, Except.bind]

theorem map_eq_ok_iff {ε α β : Type} {f : α → β} {answer : Except ε α} {result : β} :
    f <$> answer = .ok result ↔ ∃ value, answer = .ok value ∧ result = f value := by
  cases answer <;> simp [Functor.map, Except.map, eq_comm]

theorem mapError_eq_ok_iff {ε ε' α : Type} {f : ε → ε'} {answer : Except ε α} {result : α} :
    answer.mapError f = .ok result ↔ answer = .ok result := by
  cases answer with
  | error problem => exact ⟨nofun, nofun⟩
  | ok value =>
      show Except.ok value = Except.ok result ↔ _
      rw [Except.ok.injEq, Except.ok.injEq]

theorem unless_throw_eq_ok_iff {ε α β : Type} {problem : ε} {next : α → Except ε β}
    {otherwise : Except ε β} {result : β} {c : Prop} [Decidable c] :
    (if c then throw problem >>= next else otherwise) = .ok result ↔
      ¬c ∧ otherwise = .ok result := by
  by_cases h : c
  · simp [h, throw, throwThe, MonadExceptOf.throw, bind, Except.bind]
  · simp [h]

theorem forM_eq_ok_iff {ε α : Type} {question : α → Except ε PUnit} {list : List α}
    {answer : PUnit} : list.forM question = .ok answer ↔ ∀ x ∈ list, question x = .ok () := by
  induction list with
  | nil => simp [pure, Except.pure]
  | cons head tail ih =>
      show question head >>= (fun _ => tail.forM question) = .ok () ↔ _
      rw [bind_eq_ok_iff, List.forall_mem_cons]
      constructor
      · rintro ⟨⟨⟩, hhead, htail⟩
        exact ⟨hhead, ih.mp htail⟩
      · rintro ⟨hhead, htail⟩
        exact ⟨(), hhead, ih.mpr htail⟩

theorem mapM_eq_ok_iff {ε α β : Type} {question : α → Except ε β} {list : List α}
    {answers : List β} : list.mapM question = .ok answers ↔
      List.Forall₂ (fun x answer => question x = .ok answer) list answers := by
  induction list generalizing answers with
  | nil => simp [pure, Except.pure, eq_comm]
  | cons head tail ih =>
      rw [List.mapM_cons, List.forall₂_cons_left_iff]
      simp only [bind_eq_ok_iff, ih]
      constructor
      · rintro ⟨first, hfirst, rest, hrest, h⟩
        exact ⟨first, rest, hfirst, hrest, (Except.ok.inj h).symm⟩
      · rintro ⟨first, rest, hfirst, hrest, rfl⟩
        exact ⟨first, hfirst, rest, hrest, rfl⟩

/-- A result of which one aspect is known is there. -/
theorem exists_eq_ok_of_map_toOption {ε α β : Type} {answer : Except ε α} {f : α → β} {aspect : β}
    (h : answer.toOption.map f = some aspect) : ∃ value, answer = .ok value ∧ f value = aspect := by
  cases answer with
  | error problem => cases h
  | ok value => exact ⟨value, rfl, Option.some.inj h⟩

theorem toOption_eq_some_iff {ε α : Type} {answer : Except ε α} {value : α} :
    answer.toOption = some value ↔ answer = .ok value := by
  cases answer <;> simp [Except.toOption]

/-- The reason why there is no result. -/
def reason? {ε α : Type} : Except ε α → Option ε
  | .error problem => some problem
  | .ok _ => none

theorem reason?_eq_some_iff {ε α : Type} {answer : Except ε α} {problem : ε} :
    reason? answer = some problem ↔ answer = .error problem := by
  cases answer <;> simp [reason?]

/-! ## Lists behind one another and lists that correspond -/

/-- An entry of two lists, one behind the other, stands in one of them. -/
theorem append_eq_append_cons {α : Type} {first second before after : List α} {x : α}
    (h : first ++ second = before ++ x :: after) :
    (∃ rest, first = before ++ x :: rest) ∨
      ∃ middle, before = first ++ middle ∧ second = middle ++ x :: after := by
  rcases List.append_eq_append_iff.mp h with ⟨middle, rfl, rfl⟩ | ⟨middle, rfl, hmiddle⟩
  · exact Or.inr ⟨middle, rfl, rfl⟩
  · cases middle with
    | nil => exact Or.inr ⟨[], by simp, hmiddle.symm⟩
    | cons y rest =>
        obtain ⟨rfl, -⟩ := List.cons.inj hmiddle
        exact Or.inl ⟨rest, rfl⟩

theorem forall₂_append_left_iff {α β : Type} {relation : α → β → Prop} {before after : List α}
    {results : List β} : List.Forall₂ relation (before ++ after) results ↔
      ∃ first rest, List.Forall₂ relation before first ∧ List.Forall₂ relation after rest ∧
        results = first ++ rest := by
  induction before generalizing results with
  | nil => simp
  | cons head tail ih =>
      rw [List.cons_append, List.forall₂_cons_left_iff]
      constructor
      · rintro ⟨result, others, hhead, htail, rfl⟩
        obtain ⟨first, rest, hfirst, hrest, rfl⟩ := ih.mp htail
        exact ⟨result :: first, rest, .cons hhead hfirst, hrest, rfl⟩
      · rintro ⟨first, rest, hfirst, hrest, rfl⟩
        obtain ⟨result, others, hhead, htail, rfl⟩ := List.forall₂_cons_left_iff.mp hfirst
        exact ⟨result, others ++ rest, hhead, ih.mpr ⟨others, rest, htail, hrest, rfl⟩, rfl⟩

theorem exists_mem_of_forall₂ {α β : Type} {relation : α → β → Prop} {list : List α}
    {results : List β} (h : List.Forall₂ relation list results) {x : α} (hx : x ∈ list) :
    ∃ result ∈ results, relation x result := by
  induction h with
  | nil => cases hx
  | cons hfirst _ ih =>
      rcases List.mem_cons.mp hx with rfl | hx
      · exact ⟨_, List.mem_cons_self, hfirst⟩
      · obtain ⟨result, hresult, hrelated⟩ := ih hx
        exact ⟨result, List.mem_cons_of_mem _ hresult, hrelated⟩

theorem exists_forall₂_comp_iff {α β γ : Type} {first : α → β → Prop} {second : β → γ → Prop}
    {list : List α} {results : List γ} :
    (∃ middle, List.Forall₂ first list middle ∧ List.Forall₂ second middle results) ↔
      List.Forall₂ (fun x result => ∃ y, first x y ∧ second y result) list results := by
  induction list generalizing results with
  | nil => simp
  | cons head tail ih =>
      simp only [List.forall₂_cons_left_iff, ← ih]
      constructor
      · rintro ⟨_, ⟨y, middle, hy, hmiddle, rfl⟩, h⟩
        obtain ⟨result, others, hresult, hothers, rfl⟩ := List.forall₂_cons_left_iff.mp h
        exact ⟨result, others, ⟨y, hy, hresult⟩, ⟨middle, hmiddle, hothers⟩, rfl⟩
      · rintro ⟨result, others, ⟨y, hy, hresult⟩, ⟨middle, hmiddle, hothers⟩, rfl⟩
        exact ⟨y :: middle, ⟨y, middle, hy, hmiddle, rfl⟩, .cons hresult hothers⟩

/-! ## New names -/

/-- The names differ, and none of them has been seen. -/
def Fresh (seen names : List String) : Prop := names.Nodup ∧ ∀ name ∈ names, name ∉ seen

theorem fresh_nil (seen : List String) : Fresh seen [] := ⟨List.nodup_nil, by simp⟩

theorem fresh_cons {seen names : List String} {name : String} :
    Fresh seen (name :: names) ↔ name ∉ seen ∧ Fresh (name :: seen) names := by
  unfold Fresh
  rw [List.nodup_cons, List.forall_mem_cons]
  constructor
  · rintro ⟨⟨hfirst, hnodup⟩, hnew, hothers⟩
    refine ⟨hnew, hnodup, fun other hother hmem => ?_⟩
    rcases List.mem_cons.mp hmem with rfl | hmem
    · exact hfirst hother
    · exact hothers other hother hmem
  · rintro ⟨hnew, hnodup, hothers⟩
    refine ⟨⟨fun hmem => ?_, hnodup⟩, hnew, fun other hother hmem => ?_⟩
    · exact hothers name hmem List.mem_cons_self
    · exact hothers other hother (List.mem_cons_of_mem _ hmem)

theorem fresh_append {seen names others : List String} :
    Fresh seen (names ++ others) ↔ Fresh seen names ∧ Fresh (names.reverse ++ seen) others := by
  induction names generalizing seen with
  | nil => simp [fresh_nil]
  | cons name names ih =>
      rw [List.cons_append, fresh_cons, fresh_cons, ih, List.reverse_cons, List.append_assoc,
        List.singleton_append, and_assoc]

theorem fresh_nil_left {names : List String} : Fresh [] names ↔ names.Nodup := by
  simp [Fresh]

end ValidatorGen
