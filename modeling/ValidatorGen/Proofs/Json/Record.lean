import ValidatorGen.Json.Decoder
import ValidatorGen.Proofs.Questions

/-!
# When typed values are read from JSON

Lists and tables are read if every element or member is.  A record is read if every slot finds its
member, wherever it stands: `Record.Keeps` ties a slot to the part of the record that it fills, and
under it `part_eq_some_iff` says what a part holds in the end and `exists_parts` that the members
are read at all.

## Strategy

Members are read in their order and fill the parts one after the other.  What is known of a part is
carried along: it is filled where the member of its slot is met and spared everywhere else, so the
order of the members does not show in the result.
-/

namespace ValidatorGen.Json.Decoder

open Fault (behind)

variable {α β σ : Type}

theorem behind_eq_ok_iff {segment : Segment} {answer : Except Fault α} {value : α} :
    behind segment answer = .ok value ↔ answer = .ok value :=
  mapError_eq_ok_iff

/-! ## Lists and tables -/

theorem itemsOfJson_eq_ok_iff {item : Json → Except Fault α} {index : Nat} {items : List Json}
    {values : List α} : itemsOfJson item index items = .ok values ↔
      List.Forall₂ (fun json value => item json = .ok value) items values := by
  induction items generalizing index values with
  | nil => simp [itemsOfJson, eq_comm]
  | cons json rest ih =>
      rw [itemsOfJson, List.forall₂_cons_left_iff]
      simp only [bind_eq_ok_iff, behind_eq_ok_iff, ih]
      constructor
      · rintro ⟨value, hvalue, values, hvalues, h⟩
        exact ⟨value, values, hvalue, hvalues, (Except.ok.inj h).symm⟩
      · rintro ⟨value, values, hvalue, hvalues, rfl⟩
        exact ⟨value, hvalue, values, hvalues, rfl⟩

theorem membersOfJson_eq_ok_iff {value : Json → Except Fault α} {members : List (String × Json)}
    {entries : List (String × α)} : membersOfJson value members = .ok entries ↔
      List.Forall₂ (fun member entry => member.1 = entry.1 ∧ value member.2 = .ok entry.2)
        members entries := by
  induction members generalizing entries with
  | nil => simp [membersOfJson, eq_comm]
  | cons member rest ih =>
      rw [membersOfJson, List.forall₂_cons_left_iff]
      simp only [bind_eq_ok_iff, behind_eq_ok_iff, ih]
      constructor
      · rintro ⟨head, hhead, tail, htail, h⟩
        exact ⟨(member.1, head), tail, ⟨rfl, hhead⟩, htail, (Except.ok.inj h).symm⟩
      · rintro ⟨⟨name, head⟩, tail, ⟨rfl, hhead⟩, htail, rfl⟩
        exact ⟨head, hhead, tail, htail, rfl⟩

/-! ## Records -/

theorem require_eq_ok_iff {α : Type} {name : String} {part : Option α} {value : α} :
    require name part = .ok value ↔ part = some value := by
  cases part with
  | none => exact iff_of_false nofun nofun
  | some content => rw [require, Except.ok.injEq, Option.some.injEq]

/-- A value is read from the member of a name. -/
def Finds (content : Decoder β) (members : List (String × Json)) (name : String) (value : β) :
    Prop :=
  ∃ json, Table.get? members name = some json ∧ content.ofJson json = .ok value

theorem Finds.unique {content : Decoder β} {members : List (String × Json)} {name : String}
    {value other : β} (h : content.Finds members name value)
    (hother : content.Finds members name other) : value = other := by
  obtain ⟨json, hjson, hvalue⟩ := h
  obtain ⟨_, hsame, hother⟩ := hother
  cases hjson.symm.trans hsame
  exact Except.ok.inj (hvalue.symm.trans hother)

/-- What is read into a slot leaves a part alone. -/
def Slot.Spares (slot : Slot σ) (part : σ → Option β) : Prop :=
  ∀ json put, slot.value.ofJson json = .ok put → ∀ parts, part (put parts) = part parts

theorem Slot.Spares.of_map {name : String} {isFilled : σ → Bool} {content : Decoder α}
    {put : α → σ → σ} {part : σ → Option β}
    (h : ∀ value parts, part (put value parts) = part parts) :
    (Slot.mk name isFilled (content.map put)).Spares part := by
  intro json fill hfill parts
  obtain ⟨value, -, rfl⟩ := map_eq_ok_iff.mp hfill
  exact h value parts

namespace Record

variable {record : Record σ α}

/-- A part that the slot of a name fills with its content, and no other slot does. -/
structure Keeps (record : Record σ α) (name : String) (content : Decoder β)
    (part : σ → Option β) : Prop where
  slot? : ∃ put, record.slot? name =
      some ⟨name, fun parts => (part parts).isSome, content.map put⟩ ∧
    ∀ value parts, part (put value parts) = some value
  spares : ∀ slot ∈ record.slots, slot.name ≠ name → slot.Spares part

theorem mem_of_slot? {name : String} {slot : Slot σ} (h : record.slot? name = some slot) :
    slot ∈ record.slots ∧ slot.name = name := by
  refine ⟨List.mem_of_find?_eq_some h, ?_⟩
  simpa using List.find?_some h

theorem membersOfJson_cons_eq_ok_iff {name : String} {json : Json} {rest : List (String × Json)}
    {slot : Slot σ} (hslot : record.slot? name = some slot) {parts result : σ} :
    record.membersOfJson ((name, json) :: rest) parts = .ok result ↔
      slot.isFilled parts = false ∧ ∃ put, slot.value.ofJson json = .ok put ∧
        record.membersOfJson rest (put parts) = .ok result := by
  rw [membersOfJson, hslot]
  dsimp only
  cases slot.isFilled parts with
  | true => exact iff_of_false nofun nofun
  | false =>
      simp only [Bool.false_eq_true, if_false, bind_eq_ok_iff, behind_eq_ok_iff, true_and]

namespace Keeps

variable {name : String} {content : Decoder β} {part : σ → Option β}

/-- A part is filled by the member of its slot's name, or stays as it was. -/
theorem part_cases (h : record.Keeps name content part) {members : List (String × Json)}
    {parts result : σ} (hread : record.membersOfJson members parts = .ok result) :
    (Table.get? members name = none ∧ part result = part parts) ∨
      (part parts = none ∧ ∃ value, content.Finds members name value ∧
        part result = some value) := by
  obtain ⟨fill, hslot, hfill⟩ := h.slot?
  induction members generalizing parts with
  | nil =>
      cases hread
      exact Or.inl ⟨rfl, rfl⟩
  | cons member rest ih =>
      obtain ⟨other, json⟩ := member
      unfold Finds
      rw [Table.get?_cons]
      by_cases hname : name = other
      · obtain rfl := hname
        obtain ⟨hempty, put, hput, hread⟩ := (membersOfJson_cons_eq_ok_iff hslot).mp hread
        obtain ⟨value, hvalue, rfl⟩ := map_eq_ok_iff.mp hput
        rw [Option.isSome_eq_false_iff, Option.isNone_iff_eq_none] at hempty
        -- the part is filled now, so no further member may bear the name
        rcases ih hread with ⟨-, hkept⟩ | ⟨hnone, -⟩
        · rw [hfill] at hkept
          exact Or.inr ⟨hempty, value, ⟨json, if_pos rfl, hvalue⟩, hkept⟩
        · rw [hfill] at hnone
          cases hnone
      · rw [if_neg hname]
        cases hother : record.slot? other with
        | none =>
            rw [membersOfJson, hother] at hread
            exact ih hread
        | some slot =>
            obtain ⟨-, put, hput, hread⟩ := (membersOfJson_cons_eq_ok_iff hother).mp hread
            obtain ⟨hmem, hslotname⟩ := mem_of_slot? hother
            have hspared := h.spares slot hmem (hslotname ▸ Ne.symm hname) json put hput parts
            rw [← hspared]
            exact ih hread

/-- A part that was empty holds in the end what its slot finds. -/
theorem part_eq_some_iff (h : record.Keeps name content part) (hempty : part record.empty = none)
    {members : List (String × Json)} {result : σ}
    (hread : record.membersOfJson members record.empty = .ok result) {value : β} :
    part result = some value ↔ content.Finds members name value := by
  rcases h.part_cases hread with ⟨hnone, hkept⟩ | ⟨-, found, hfound, hresult⟩
  · rw [hkept, hempty]
    refine iff_of_false nofun ?_
    rintro ⟨json, hjson, -⟩
    cases hnone.symm.trans hjson
  · rw [hresult, Option.some.injEq]
    exact ⟨fun hvalue => hvalue ▸ hfound, hfound.unique⟩

end Keeps

/-- Members without a repeated name are read if each that has a slot is read into an empty part. -/
theorem exists_membersOfJson_eq_ok {members : List (String × Json)} {parts : σ}
    (hnames : (members.map Prod.fst).Nodup)
    (h : ∀ slot ∈ record.slots, ∀ json, Table.get? members slot.name = some json →
      ∃ (β : Type) (content : Decoder β) (part : σ → Option β) (value : β),
        record.Keeps slot.name content part ∧ part parts = none ∧
          content.ofJson json = .ok value) :
    ∃ result, record.membersOfJson members parts = .ok result := by
  induction members generalizing parts with
  | nil => exact ⟨parts, rfl⟩
  | cons member rest ih =>
      obtain ⟨name, json⟩ := member
      rw [List.map_cons, List.nodup_cons] at hnames
      have hlater : ∀ {other : String} {json' : Json}, Table.get? rest other = some json' →
          other ≠ name ∧ Table.get? ((name, json) :: rest) other = some json' := by
        intro other json' hget
        have hne : other ≠ name := by
          rintro rfl
          exact hnames.1 (List.mem_map.mpr ⟨_, Table.mem_of_get? hget, rfl⟩)
        exact ⟨hne, by rw [Table.get?_cons, if_neg hne, hget]⟩
      cases hslot : record.slot? name with
      | none =>
          rw [membersOfJson, hslot]
          exact ih hnames.2 fun slot hmem json' hget => h slot hmem json' (hlater hget).2
      | some slot =>
          obtain ⟨hmem, hname⟩ := mem_of_slot? hslot
          obtain ⟨β, content, part, value, hkeeps, hempty, hvalue⟩ :=
            h slot hmem json (by rw [hname, Table.get?_cons, if_pos rfl])
          rw [hname] at hkeeps
          obtain ⟨fill, hslot', -⟩ := hkeeps.slot?
          cases hslot.symm.trans hslot'
          have hput : (content.map fill).ofJson json = .ok (fill value) :=
            map_eq_ok_iff.mpr ⟨value, hvalue, rfl⟩
          obtain ⟨result, hresult⟩ :
              ∃ result, record.membersOfJson rest (fill value parts) = .ok result := by
            refine ih hnames.2 fun other hother json' hget => ?_
            obtain ⟨hne, hget⟩ := hlater hget
            obtain ⟨β', content', part', value', hkeeps', hempty', hvalue'⟩ :=
              h other hother json' hget
            -- filling this slot leaves the parts of the others empty
            refine ⟨β', content', part', value', hkeeps', ?_, hvalue'⟩
            rw [hkeeps'.spares _ hmem hne.symm json _ hput, hempty']
          refine ⟨result, (membersOfJson_cons_eq_ok_iff hslot).mpr ⟨?_, fill value, hput, hresult⟩⟩
          exact Option.isSome_eq_false_iff.mpr (Option.isNone_iff_eq_none.mpr hempty)

/-- The members of a record are read if every slot finds its own. -/
theorem exists_parts {members : List (String × Json)} (hnames : (members.map Prod.fst).Nodup)
    (h : ∀ slot ∈ record.slots, ∃ (β : Type) (content : Decoder β) (part : σ → Option β)
      (value : β), record.Keeps slot.name content part ∧ part record.empty = none ∧
        content.Finds members slot.name value) :
    ∃ parts, record.membersOfJson members record.empty = .ok parts := by
  refine exists_membersOfJson_eq_ok hnames fun slot hmem json hget => ?_
  obtain ⟨β, content, part, value, hkeeps, hempty, found, hfound, hvalue⟩ := h slot hmem
  cases hget.symm.trans hfound
  exact ⟨β, content, part, value, hkeeps, hempty, hvalue⟩

end Record

end ValidatorGen.Json.Decoder
