import ValidatorGen.Proofs.Json.RoundTrip
import ValidatorGen.Proofs.Schema.Decode
import ValidatorGen.Schema.Read

/-!
# Schemas are read as they are written

A schema is read back from its JSON and from the text of its JSON (`read_toJson`).  Reading from
text adds two conditions: the text may not nest deeper than a reader goes, and the numbers of
constants have to be integers, because doubles are not read exactly.

## Strategy

Whatever is not in a constant is made of texts and lists, so the JSON of a schema has integers only
if its constants have (`integral_toJson`).  The outermost object is read member by member: the kind
at once, and the parts as plain JSON, last first (`gathers_toJson`).  From there on reading goes the
way of decoding.
-/

namespace ValidatorGen

open Json Reader

theorem FlowType.integral_toJson (type : FlowType) : Integral type.toJson := by
  induction type using FlowType.induct with
  | named name => exact .string name
  | literal value => exact .object (List.forall_mem_singleton.mpr (.string value))
  | applied name parameters ih =>
      have hparameters : ∀ json ∈ toJsons parameters, Integral json := by
        induction parameters with
        | nil => exact List.forall_mem_nil _
        | cons parameter parameters ihrest =>
            rw [List.forall_mem_cons] at ih
            exact List.forall_mem_cons.mpr ⟨ih.1, ihrest ih.2⟩
      exact .object (List.forall_mem_cons.mpr ⟨.string name,
        List.forall_mem_singleton.mpr (.array hparameters)⟩)

namespace Schema

/-! ## The numbers of a schema -/

theorem integral_namedToJson {label : String} {entries : List (String × Schema)}
    (h : ∀ entry ∈ entries, Integral entry.2.toJson) :
    ∀ json ∈ namedToJson label entries, Integral json := by
  induction entries with
  | nil => exact List.forall_mem_nil _
  | cons entry entries ih =>
      rw [List.forall_mem_cons] at h
      rw [namedToJson, List.forall_mem_cons]
      refine ⟨.object (List.forall_mem_cons.mpr ⟨.string entry.1, ?_⟩), ih h.2⟩
      exact List.forall_mem_singleton.mpr h.1

theorem integral_partMembers {schema : Schema}
    (hconstant : ∀ type value, schema = .constant type value → Integral value)
    (hparts : ∀ part ∈ schema.parts, Integral part.toJson) :
    ∀ member ∈ schema.partMembers, Integral member.2 := by
  cases schema with
  | bool | number | string | filePath => exact List.forall_mem_nil _
  | constant type value =>
      simp only [partMembers, List.forall_mem_cons]
      exact ⟨.string type, hconstant type value rfl, List.forall_mem_nil _⟩
  | enumeration type values =>
      simp only [partMembers, List.forall_mem_cons]
      exact ⟨type.integral_toJson, .array (List.forall_mem_map.mpr fun text _ => .string text),
        List.forall_mem_nil _⟩
  | object type fields optional =>
      rw [parts, List.forall_mem_map, List.forall_mem_append] at hparts
      simp only [partMembers, List.cons_append, List.nil_append, List.forall_mem_cons]
      refine ⟨type.integral_toJson, .array (integral_namedToJson hparts.1), ?_⟩
      -- without optional fields there is no member for them
      split
      · exact List.forall_mem_nil _
      · exact List.forall_mem_singleton.mpr (.array (integral_namedToJson hparts.2))
  | list element =>
      rw [parts, List.forall_mem_singleton] at hparts
      exact List.forall_mem_singleton.mpr hparts
  | mapping key value =>
      simp only [parts, List.forall_mem_cons] at hparts
      simp only [partMembers, List.forall_mem_cons]
      exact ⟨hparts.1, hparts.2.1, List.forall_mem_nil _⟩
  | sum type discriminant discriminantType variants =>
      rw [parts, List.forall_mem_map] at hparts
      simp only [partMembers, List.forall_mem_cons]
      exact ⟨type.integral_toJson, .string discriminant, discriminantType.integral_toJson,
        .array (integral_namedToJson hparts), List.forall_mem_nil _⟩
  | custom name types =>
      simp only [partMembers, List.forall_mem_cons]
      exact ⟨.string name, .array (List.forall_mem_map.mpr fun type _ => type.integral_toJson),
        List.forall_mem_nil _⟩

/-- The JSON of a schema has integers only if its constants have. -/
theorem integral_toJson {schema : Schema} (h : schema.AllConstants Integral) :
    Integral schema.toJson := by
  induction schema using induct_parts with
  | h schema ih =>
      obtain ⟨hconstant, hparts⟩ := allConstants_iff.mp h
      rw [toJson_eq]
      refine .object (List.forall_mem_cons.mpr ⟨.string _, ?_⟩)
      exact integral_partMembers hconstant fun part hpart => ih part hpart (hparts part hpart)

/-! ## Reading from text -/

theorem takes_readKind (kind : Kind) (rest : List Char) :
    Takes readKind (quote kind.name ++ rest) kind rest := by
  rw [quote, List.cons_append, List.append_assoc]
  refine takes_bind (takes_peekToken rfl _) <| takes_bind (takes_advance '"' _) <|
    takes_bind (takes_stringTail kind.name rest) (takes_placed ?_)
  have hkind : Kind.ofName kind.name = .ok kind := ofNaming_name kind
  rw [hkind]
  exact takes_pure kind rest

/-- Behind the kind, parts are kept as they are met, the last one first. -/
theorem gathers_parts {levels : Nat} {members : List (String × Json)}
    (hnames : ∀ member ∈ members, member.1 ≠ kindMember)
    (htakes : ∀ member ∈ members, ∀ text, EndsNumber text →
      Takes (tree levels) (member.2.chars ++ text) member.2 text)
    (kind : Kind) (read : List (String × Json)) :
    Gathers (readMember levels) (some kind, read) members (some kind, members.reverse ++ read) := by
  induction members generalizing read with
  | nil => exact .nil _
  | cons member members ih =>
      rw [List.forall_mem_cons] at hnames htakes
      rw [List.reverse_cons, List.append_assoc]
      refine .cons (fun text htext => ?_) (ih hnames.2 htakes.2 (member :: read))
      rw [readMember, if_neg hnames.1]
      exact takes_bind (takes_memberValue (htakes.1 text htext)) (takes_pure _ text)

theorem gathers_toJson {schema : Schema} {levels : Nat}
    (htakes : ∀ member ∈ schema.partMembers, ∀ text, EndsNumber text →
      Takes (tree levels) (member.2.chars ++ text) member.2 text) :
    Gathers (readMember levels) (none, [])
      ((kindMember, .string schema.kind.name) :: schema.partMembers)
      (some schema.kind, schema.partMembers.reverse) := by
  have hparts := gathers_parts schema.ne_kindMember_of_mem_partMembers htakes schema.kind []
  rw [List.append_nil] at hparts
  refine .cons (fun text _ => ?_) hparts
  rw [readMember, if_pos rfl, if_neg (by simp)]
  exact takes_bind (takes_memberValue (takes_readKind schema.kind text)) (takes_pure _ text)

/-- The outermost schema is taken from its text, whatever follows. -/
theorem takes_read {schema : Schema}
    (hdistinct : schema.AllConstants fun value => value.isDistinct = true)
    (hintegral : schema.AllConstants Integral) {levels : Nat}
    (hdepth : schema.toJson.depth ≤ levels) (rest : List Char) :
    Takes (read levels) (schema.toJson.chars ++ rest) schema rest := by
  rw [toJson_eq, Json.depth] at hdepth
  obtain ⟨levels, rfl⟩ : ∃ inner, levels = inner + 1 :=
    Nat.exists_eq_add_of_le' (Nat.one_le_of_lt hdepth)
  obtain ⟨hconstant, hparts⟩ := allConstants_iff.mp hintegral
  have hmembers := integral_partMembers hconstant fun part hpart =>
    integral_toJson (hparts part hpart)
  have htakes : ∀ member ∈ schema.partMembers, ∀ text, EndsNumber text →
      Takes (tree levels) (member.2.chars ++ text) member.2 text := by
    intro member hmember text htext
    refine takes_tree (hmembers member hmember) ?_ htext
    have hle := depth_le_depthOfMembers (List.mem_cons_of_mem
      (kindMember, Json.string schema.kind.name) hmember)
    omega
  rw [toJson_eq, Json.chars, memberChars_eq_listed, List.cons_append, List.append_assoc]
  refine takes_bind (takes_peekToken rfl _) (takes_bind (takes_opening (takes_within
    (takes_bind (takes_members (gathers_toJson htakes) rest) (takes_pure _ _))
    (takes_closeObject rest))) ?_)
  rw [List.reverse_reverse]
  show Takes (lift (ofMembers schema.kind schema.partMembers)) rest schema rest
  rw [ofMembers_partMembers hdistinct]
  exact takes_pure schema rest

/-- A schema is read back from its JSON, and from the text of it if that nests no deeper than a
reader goes and its numbers are integers.  Any text may follow. -/
theorem read_toJson {schema : Schema}
    (hdistinct : schema.AllConstants fun value => value.isDistinct = true) :
    decoder.ofJson schema.toJson = .ok schema ∧
      (schema.toJson.depth ≤ maxDepth → schema.AllConstants Integral → ∀ rest : String,
        decoder.read (schema.toJson.text ++ rest) = .ok schema) := by
  refine ⟨ofJson_toJson hdistinct, fun hdepth hintegral rest => ?_⟩
  have htakes := takes_read hdistinct hintegral hdepth rest.toList
  rw [← toList_text_append] at htakes
  exact run_eq_ok htakes

/-- Pages of items, each with its version and perhaps a text. -/
def pageSchema : Schema :=
  .object (.applied "Page" [.named "T", .literal "it's"]) [
    ("version", .constant "object" (.object [("major", .number (.int (-2)))])),
    ("items", .list (.custom "deT" [.named "T"]))] [("note", .string)]

theorem allConstants_pageSchema {property : Json → Prop}
    (h : property (.object [("major", .number (.int (-2)))])) :
    pageSchema.AllConstants property := by
  have hitems : (Schema.custom "deT" [.named "T"]).AllConstants property :=
    allConstants_iff.mpr ⟨nofun, nofun⟩
  refine allConstants_iff.mpr ⟨nofun, List.forall_mem_cons.mpr ⟨?_, List.forall_mem_cons.mpr
    ⟨?_, List.forall_mem_singleton.mpr (allConstants_iff.mpr ⟨nofun, nofun⟩)⟩⟩⟩
  · refine allConstants_iff.mpr ⟨fun type value heq => ?_, nofun⟩
    cases heq
    exact h
  · exact allConstants_iff.mpr ⟨nofun, List.forall_mem_singleton.mpr hitems⟩

/-- The text of the schema may be followed by something that is no JSON. -/
theorem read_toJson_pageSchema :
    (pageSchema.AllConstants fun value => value.isDistinct = true) ∧
    pageSchema.toJson.depth ≤ maxDepth ∧ pageSchema.AllConstants Integral ∧
    decoder.ofJson pageSchema.toJson = .ok pageSchema ∧
    decoder.read (pageSchema.toJson.text ++ "] and so on") = .ok pageSchema := by
  have hdistinct : pageSchema.AllConstants fun value => value.isDistinct = true :=
    allConstants_pageSchema (by decide)
  have hdepth : pageSchema.toJson.depth ≤ maxDepth := by cbv
  have hintegral : pageSchema.AllConstants Integral := allConstants_pageSchema
    (.object (List.forall_mem_singleton.mpr (.number (by decide))))
  obtain ⟨hjson, htext⟩ := read_toJson hdistinct
  exact ⟨hdistinct, hdepth, hintegral, hjson, htext hdepth hintegral _⟩

end Schema

end ValidatorGen
