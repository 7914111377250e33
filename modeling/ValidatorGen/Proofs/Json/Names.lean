import ValidatorGen.Json.Decoder
import ValidatorGen.Proofs.Questions

/-!
# The names of tables that are read

A table keeps one entry for each name, also where the text repeats a name.  So whatever table is
read from a text has distinct names (`nodup_names_of_read`).

## Strategy

`Yields` says of a reader that whatever it reads has a property, wherever it starts.  A fold over
members keeps what each of its steps keeps (`yields_members`), and setting a name keeps the names of
a table distinct.
-/

namespace ValidatorGen.Json

variable {α β : Type}

/-- Whatever a reader reads has a property. -/
def Yields (reader : Reader α) (property : α → Prop) : Prop :=
  ∀ cursor value left, reader cursor = .ok (value, left) → property value

namespace Reader

variable {property : β → Prop}

theorem yields_pure {value : β} (h : property value) : Yields (pure value) property := by
  rintro cursor _ _ ⟨⟩
  exact h

theorem yields_bind {first : Reader α} {next : α → Reader β}
    (h : ∀ value, Yields (next value) property) : Yields (first >>= next) property := by
  intro cursor value left hread
  obtain ⟨⟨found, middle⟩, -, hnext⟩ := bind_eq_ok_iff.mp hread
  exact h found middle value left hnext

theorem yields_stopNext (flaw : Flaw) : Yields (stopNext flaw) property := nofun

theorem yields_mismatch (expected : String) (first : Char) :
    Yields (mismatch expected first) property := by
  have hstop (json : Json) : Yields (stop (.mismatch json expected)) property := nofun
  have hplaced {reader : Reader β} (h : Yields reader property) :
      Yields (placed reader) property := by
    intro cursor value left hread
    unfold placed at hread
    split at hread
    · cases hread
    · exact h cursor value left hread
  refine hplaced ?_
  split
  · exact hstop _
  · exact hstop _
  · exact yields_bind fun found => hstop found

theorem yields_opening {levels : Nat} {inner : Nat → Reader β}
    (h : ∀ levels, Yields (inner levels) property) : Yields (opening levels inner) property := by
  cases levels with
  | zero => exact yields_stopNext _
  | succ levels => exact yields_bind fun _ => h levels

theorem yields_within {close : Reader Unit} {inner : Reader β} (h : Yields inner property) :
    Yields (within close inner) property := by
  intro cursor value left hread
  unfold within at hread
  split at hread
  · next hinner =>
      obtain ⟨_, -, hpure⟩ := bind_eq_ok_iff.mp hread
      cases hpure
      exact h _ _ _ hinner
  · cases hread
  · cases hread

variable {member : β → String → Reader β}

/-- What holds before the first member and is kept by each of them holds behind the last one. -/
theorem yields_membersFrom (hmember : ∀ state name, property state →
    Yields (member state name) property) (steps : Nat) (first : Bool) {state : β}
    (h : property state) : Yields (membersFrom member steps first state) property := by
  induction steps generalizing first state with
  | zero => exact yields_stopNext _
  | succ steps ih =>
      refine yields_bind fun name => ?_
      -- without a further name the state is what has been gathered
      cases name with
      | none => exact yields_pure h
      | some name =>
          intro cursor value left hread
          obtain ⟨⟨next, middle⟩, hnext, hrest⟩ := bind_eq_ok_iff.mp hread
          exact ih false (hmember state name h cursor next middle hnext) middle value left hrest

theorem yields_members (hmember : ∀ state name, property state →
    Yields (member state name) property) {state : β} (h : property state) :
    Yields (members member state) property :=
  yields_bind fun _ => yields_membersFrom hmember _ true h

end Reader

open Reader

/-- No name stands twice in a table that is read from a text. -/
theorem nodup_names_of_read {decoder : Decoder α} {text : String} {table : Table α}
    (h : (Decoder.table decoder).read text = .ok table) : table.names.Nodup := by
  have hyields (levels : Nat) :
      Yields ((Decoder.table decoder).ofText levels) fun table => table.names.Nodup := by
    refine yields_bind fun first => ?_
    -- only the second case reads a table, and it gathers the members one by one
    split
    · exact yields_stopNext _
    · refine yields_opening fun levels => yields_within (yields_members ?_ List.nodup_nil)
      exact fun state name hstate => yields_bind fun value =>
        yields_pure (Table.nodup_names_set hstate name value)
    · exact yields_mismatch _ _
  unfold Decoder.read run at h
  split at h
  · next value left hread =>
      obtain rfl := Except.ok.inj h
      exact hyields _ _ _ _ hread
  · cases h

end ValidatorGen.Json
