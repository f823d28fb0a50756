import ScriptFrontend.Proofs.Tree.Depth
import ScriptFrontend.Proofs.Tree.Tagged

/-!
# Proofs/Tree/Same — equal trees have equal records, and no others

Records are compared as maps: `Json.same` asks of two objects that they have as many members and
that each member of the one stands in the other, wherever it stands there.  `Node.sameWithin`
compares trees.  Both come down to the trees being one and the same (`Node.compares`,
`Node.eq_of_same_record`), hence to each other, as far as trees can be compared.

That is how far their nodes are nested within the limit (`Compares`).  Records have no limit; so two
trees can have equal records and be too deep for finding out that they are equal
(`Node.same_sum_recursionLimit`).

A record is looked up by names only.  The word under `kind` gives the form, and the form gives the
names of the fields (`Form.fieldNames`); so what stands under these names gives the fields.
-/

namespace ScriptFrontend

open Json (Plain)

/-! ## Equality of values -/

namespace Json

mutual

/-- **Whether two values are equal**, whatever the order of the members of an object. -/
def same : Json → Json → Bool
  | .array as, .array bs => sameItems as bs
  | .object as, .object bs => as.length == bs.length && sameMembers as bs
  | a, b => a.sameKey b

/-- Whether items are equal one by one. -/
def sameItems : List Json → List Json → Bool
  | [], [] => true
  | a :: as, b :: bs => a.same b && sameItems as bs
  | _, _ => false

/-- Whether members are found, with equal values, among others. -/
def sameMembers : List (String × Json) → List (String × Json) → Bool
  | [], _ => true
  | (name, value) :: rest, others =>
    (others.lookup name).any (fun other => value.same other) && sameMembers rest others

end

theorem sameItems_iff {as bs : List Json} :
    sameItems as bs = true ↔ List.Forall₂ (fun a b => a.same b = true) as bs := by
  induction as generalizing bs with
  | nil => cases bs <;> simp [sameItems]
  | cons a as ih => cases bs <;> simp [sameItems, ih]

theorem sameMembers_iff {members others : List (String × Json)} :
    sameMembers members others = true ↔ ∀ member ∈ members,
      ∃ other, others.lookup member.1 = some other ∧ member.2.same other = true := by
  induction members with
  | nil => simp [sameMembers]
  | cons member members ih =>
    rw [sameMembers, Bool.and_eq_true, ih, Option.any_eq_true, List.forall_mem_cons]

theorem same_string {value : String} {json : Json} (h : (string value).same json = true) :
    json = .string value := by
  cases json <;> simp_all [same, sameKey, integer?]

theorem same_null {json : Json} (h : null.same json = true) : json = .null := by
  cases json <;> simp_all [same, sameKey, integer?]

theorem same_array {items : List Json} {json : Json} (h : (array items).same json = true) :
    ∃ others, json = .array others ∧ sameItems items others = true := by
  cases json <;> simp_all [same, sameKey, integer?]

theorem same_object {members : List (String × Json)} {json : Json}
    (h : (object members).same json = true) :
    ∃ others, json = .object others ∧ sameMembers members others = true := by
  cases json <;> simp_all [same, sameKey, integer?]

/-- A plain value is equal to itself. -/
theorem same_self {json : Json} (hplain : Plain json) : json.same json = true := by
  induction hplain with
  | null | bool value | int value | string value => simp [same, sameKey, integer?]
  | array _ ih => rw [same, sameItems_iff, List.forall₂_same]; exact ih
  | object hnames _ ih =>
    rw [same, beq_self_eq_true, Bool.true_and]
    exact sameMembers_iff.2 fun member hmember =>
      ⟨member.2, Node.get?_of_mem hnames hmember, ih member hmember⟩

end Json

/-! ## The names of the fields -/

/-- The names of the fields of a form. -/
def Form.fieldNames : Form → List String
  | bare | returnStmt | breakStmt | continueStmt => []
  | literal => ["value", "literal_type"]
  | identifier | macroRegion | free => ["name"]
  | binary => ["left", "operator", "right"]
  | unary => ["operator", "operand"]
  | program | loop | repeatLoop | start | async | mutex => ["body"]
  | init => ["name", "initializer"]
  | assign => ["name", "value"]
  | ifElse => ["condition", "then_body", "else_body"]
  | forLoop => ["initializer", "condition", "increment", "body"]
  | whileLoop => ["condition", "body"]
  | tryCatch => ["try_body", "catch_body"]
  | function => ["name", "parameters", "body"]
  | matchCase => ["pattern", "body"]
  | matchWith => ["subject", "cases", "default_body"]
  | throw | await => ["value"]
  | structDecl => ["name", "fields"]
  | classDecl => ["name", "body"]
  | alloc => ["name", "size"]

namespace Node

theorem names_fields (n : Node) : n.fields.map Prod.fst = n.form.fieldNames := by
  cases n <;> rfl

/-- A record says under the name of a field what the field holds. -/
theorem get?_record_field {n : Node} {name : String} {field : Field Node}
    (hfield : (name, field) ∈ n.fields) :
    n.record.get? name = some (field.map record).toJson := by
  rw [record_eq, recordOf]
  refine get?_of_mem ?_ ?_
  · simpa [Function.comp_def] using n.nodup_names
  · refine List.mem_append_left _ (List.mem_cons_of_mem _ ?_)
    rw [List.map_map]
    exact List.mem_map.2 ⟨(name, field), hfield, rfl⟩

/-- What equals a record is an object. -/
theorem object_of_same {n : Node} {json : Json} (h : n.record.same json = true) :
    ∃ members, json = .object members := by
  obtain ⟨members, hmembers⟩ := n.record_object
  rw [hmembers] at h
  obtain ⟨others, hothers, -⟩ := Json.same_object h
  exact ⟨others, hothers⟩

/-- Equal records say equal things under every name. -/
theorem same_get? {a b : Node} {name : String} {value : Json}
    (h : a.record.same b.record = true) (hvalue : a.record.get? name = some value) :
    ∃ other, b.record.get? name = some other ∧ value.same other = true := by
  obtain ⟨members, ha⟩ := a.record_object
  rw [ha] at h hvalue
  obtain ⟨others, hb, hsame⟩ := Json.same_object h
  obtain ⟨front, back, rfl, -⟩ := List.lookup_eq_some_iff.1 hvalue
  rw [hb]
  exact Json.sameMembers_iff.1 hsame (name, value) (by simp)

end Node

/-! ## Equal records -/

/-- Nodes whose records are equal one by one are the same, if that holds of each of them. -/
theorem Node.eq_of_forall₂_same {as bs : List Node}
    (hchildren : ∀ child ∈ as, ∀ other : Node,
      child.record.same other.record = true → child = other)
    (h : List.Forall₂ (fun a b : Node => a.record.same b.record = true) as bs) : as = bs := by
  rw [← List.forall₂_eq_eq_eq]
  induction h with
  | nil => exact .nil
  | cons hsame _ ih =>
    rw [List.forall_mem_cons] at hchildren
    exact .cons (hchildren.1 _ hsame) (ih hchildren.2)

/-- A field is known from a value equal to its record, if it is known whether it lists texts. -/
theorem Field.eq_of_same {a b : Field Node} (hkind : a.areTexts = b.areTexts)
    (hchildren : ∀ child ∈ a.children, ∀ other : Node,
      child.record.same other.record = true → child = other)
    (h : (a.map Node.record).toJson.same (b.map Node.record).toJson = true) : a = b := by
  cases a with
  | text value =>
    have hvalue := Json.same_string h
    cases b with
    | text other => exact congrArg text (Json.string.inj hvalue).symm
    | node n => exact absurd hvalue (Node.record_ne nofun)
    | texts | nodes | absent => cases hvalue
  | texts values =>
    obtain ⟨items, hitems, hsame⟩ := Json.same_array h
    cases b with
    | texts others =>
      cases hitems
      have htexts := Json.sameItems_iff.1 hsame
      rw [List.forall₂_map_left_iff, List.forall₂_map_right_iff] at htexts
      have heq := htexts.imp fun _ _ hsame => Json.string.inj (Json.same_string hsame).symm
      exact congrArg texts (List.forall₂_eq_eq_eq ▸ heq)
    | text | node | nodes | absent => cases hkind
  | node n =>
    cases b with
    | node other => exact congrArg node (hchildren n List.mem_cons_self other h)
    | text | texts | nodes | absent =>
      obtain ⟨members, hmembers⟩ := Node.object_of_same (n := n) h
      cases hmembers
  | nodes list =>
    obtain ⟨items, hitems, hsame⟩ := Json.same_array h
    cases b with
    | nodes others =>
      cases hitems
      have hnodes := Json.sameItems_iff.1 hsame
      rw [List.forall₂_map_left_iff, List.forall₂_map_right_iff] at hnodes
      exact congrArg nodes (Node.eq_of_forall₂_same hchildren hnodes)
    | node n => exact absurd hitems (Node.record_ne nofun)
    | texts => cases hkind
    | text | absent => cases hitems
  | absent =>
    have hvalue := Json.same_null h
    cases b with
    | absent => rfl
    | node n => exact absurd hvalue (Node.record_ne nofun)
    | text | texts | nodes => cases hvalue

/-- Fields with the same names are the same if each stands among the others. -/
theorem Field.all_eq_of_subset {as bs : List (String × Field Node)}
    (hnames : as.map Prod.fst = bs.map Prod.fst) (hnodup : (bs.map Prod.fst).Nodup)
    (hsubset : ∀ entry ∈ as, entry ∈ bs) : as = bs := by
  induction as generalizing bs with
  | nil => simpa using hnames
  | cons entry rest ih =>
    cases bs with
    | nil => simp at hnames
    | cons other others =>
      rw [List.map_cons, List.map_cons, List.cons.injEq] at hnames
      rw [List.map_cons, List.nodup_cons] at hnodup
      rw [List.forall_mem_cons] at hsubset
      have hentry : entry = other := (List.mem_cons.1 hsubset.1).resolve_right fun hmem =>
        hnodup.1 (hnames.1 ▸ List.mem_map_of_mem hmem)
      have hrest : rest = others := ih hnames.2 hnodup.2 fun e he =>
        (List.mem_cons.1 (hsubset.2 e he)).resolve_left fun heq =>
          hnodup.1 (hnames.2 ▸ heq ▸ List.mem_map_of_mem he)
      rw [hentry, hrest]

namespace Node

theorem form_eq_of_same {a b : Node} (h : a.record.same b.record = true) : a.form = b.form := by
  obtain ⟨other, hother, hsame⟩ := same_get? h a.get?_record.1
  rw [b.get?_record.1, Option.some.injEq] at hother
  exact Form.word_injective (Json.string.inj (hother.trans (Json.same_string hsame))).symm

theorem place_eq_of_same {a b : Node} (h : a.record.same b.record = true) : a.place = b.place := by
  obtain ⟨-, hline, hcolumn⟩ := a.get?_record
  obtain ⟨-, hline', hcolumn'⟩ := b.get?_record
  obtain ⟨other, hother, hsame⟩ := same_get? h hline
  obtain ⟨other', hother', hsame'⟩ := same_get? h hcolumn
  rw [hline', Option.some.injEq] at hother
  rw [hcolumn', Option.some.injEq] at hother'
  subst hother hother'
  rcases ha : a.place with ⟨line, column⟩
  rcases hb : b.place with ⟨line', column'⟩
  simp_all [Json.same, Json.sameKey, Json.integer?]

/-- **Trees with equal records are the same**, by recursion on the tree. -/
theorem eq_of_same_record {a b : Node} (h : a.record.same b.record = true) : a = b := by
  have hform := form_eq_of_same h
  have hnames : a.fields.map Prod.fst = b.fields.map Prod.fst := by
    rw [names_fields, names_fields, hform]
  have hnodup : (b.fields.map Prod.fst).Nodup :=
    (List.nodup_append.1 b.nodup_names).1.tail
  refine eq_of_parts hform (congrArg _ (Field.all_eq_of_subset hnames hnodup ?_))
    (place_eq_of_same h)
  intro entry hentry
  obtain ⟨entry', hentry', hname⟩ := List.mem_map.1 (hnames ▸ List.mem_map_of_mem hentry :
    entry.1 ∈ b.fields.map Prod.fst)
  obtain ⟨other, hother, hsame⟩ := same_get? h (get?_record_field hentry)
  rw [← hname, get?_record_field hentry', Option.some.injEq] at hother
  have hkind : entry.2.areTexts = entry'.2.areTexts := by
    rw [a.areTexts_fields _ hentry, hform, b.areTexts_fields _ hentry', hname]
  have hfield : entry.2 = entry'.2 := by
    refine Field.eq_of_same hkind (fun child hchild other' hother' => ?_) (hother ▸ hsame)
    have hsmaller := sizeOf_children_lt (List.mem_flatMap.2 ⟨_, hentry, hchild⟩)
    exact eq_of_same_record hother'
  have heq : entry = entry' := Prod.ext hname.symm hfield
  rwa [heq]
termination_by a

/-- **Different trees have different records.** -/
theorem record_injective {a b : Node} (h : a.record = b.record) : a = b :=
  eq_of_same_record (h ▸ Json.same_self a.plain_record)

end Node

/-! ## Equal trees

The comparison of trees, taken apart in the same steps: lists, fields, nodes. -/

/-- **An answer to whether two things are equal.**  It is there if one of them fits. -/
structure Compares {α : Type} (fits : α → Prop) (answer : Option Bool) (a b : α) : Prop where
  yes : answer = some true ↔ a = b ∧ fits a
  no : answer = some false → a ≠ b
  none : answer = none → ¬ fits a ∧ ¬ fits b

namespace Compares

variable {α : Type} {fits : α → Prop} {a b : α}

theorem ofEq (h : fits a) : Compares fits (some true) a a := ⟨by simp [h], nofun, nofun⟩

theorem ofNe (h : a ≠ b) : Compares fits (some false) a b := ⟨by simp [h], fun _ => h, nofun⟩

/-- Things that take turns are compared in turn. -/
theorem cons {first rest : Option Bool} {as bs : List α} (hfirst : Compares fits first a b)
    (hrest : Compares (fun list => ∀ a ∈ list, fits a) rest as bs) :
    Compares (fun list => ∀ a ∈ list, fits a) (bothPass first rest) (a :: as) (b :: bs) where
  yes := by
    rw [List.cons.injEq, List.forall_mem_cons]
    rcases first with _ | _ | _
    · have := hfirst.yes
      simp_all [bothPass]
    · have := hfirst.yes
      simp_all [bothPass]
    · obtain ⟨rfl, hfits⟩ := hfirst.yes.1 rfl
      simp [bothPass, hrest.yes, hfits]
  no h := by
    rcases first with _ | _ | _
    · cases h
    · exact fun heq => hfirst.no rfl (List.cons.inj heq).1
    · exact fun heq => hrest.no h (List.cons.inj heq).2
  none h := by
    simp only [List.forall_mem_cons]
    rcases first with _ | _ | _
    · exact (hfirst.none rfl).imp (mt And.left) (mt And.left)
    · cases h
    · exact (hrest.none h).imp (mt And.right) (mt And.right)

/-- An answer about two things that stand for two others. -/
theorem imp {β : Type} {fits' : β → Prop} {answer : Option Bool} {a' b' : β}
    (h : Compares fits answer a b) (heq : a' = b' ↔ a = b) (ha : fits' a' ↔ fits a)
    (hb : fits' b' ↔ fits b) : Compares fits' answer a' b' where
  yes := by rw [h.yes, heq, ha]
  no hno := mt heq.1 (h.no hno)
  none hnone := by
    rw [ha, hb]
    exact h.none hnone

end Compares

/-- Whether nodes are nested in a field no deeper than a limit. -/
def Field.Within (limit : Nat) (field : Field Node) : Prop :=
  ∀ child ∈ field.children, child.depth ≤ limit

section

variable {limit : Nat}
  (hnodes : ∀ a b : Node, Compares (fun n => n.depth ≤ limit) (a.sameWithin limit b) a b)

include hnodes

theorem compares_allPass (as bs : List Node) :
    Compares (fun list => ∀ n ∈ list, n.depth ≤ limit) (allPass (as.map (Node.sameWithin limit)) bs)
      as bs := by
  induction as generalizing bs with
  | nil =>
    cases bs with
    | nil => exact .ofEq (by simp)
    | cons b bs => exact .ofNe (by simp)
  | cons a as ih =>
    cases bs with
    | nil => exact .ofNe (by simp)
    | cons b bs => exact (hnodes a b).cons (ih bs)

theorem compares_passes (a b : Field Node) :
    Compares (Field.Within limit) ((a.map (Node.sameWithin limit)).passes b) a b := by
  have hnone {field : Field Node} (h : field.children = []) : field.Within limit := by
    simp [Field.Within, h]
  have htext {β : Type} [BEq β] [LawfulBEq β] (f : β → Field Node) (hf : Function.Injective f)
      (hfits : ∀ x, (f x).Within limit) (x y : β) :
      Compares (Field.Within limit) (some (x == y)) (f x) (f y) := by
    by_cases heq : x = y
    · subst heq
      rw [beq_self_eq_true]
      exact .ofEq (hfits x)
    · rw [beq_eq_false_iff_ne.2 heq]
      exact .ofNe (hf.ne heq)
  cases a with
  | text x =>
    cases b with
    | text y => exact htext .text (fun _ _ => Field.text.inj) (fun _ => hnone rfl) x y
    | _ => exact .ofNe (by simp)
  | texts x =>
    cases b with
    | texts y => exact htext .texts (fun _ _ => Field.texts.inj) (fun _ => hnone rfl) x y
    | _ => exact .ofNe (by simp)
  | node n =>
    cases b with
    | node m =>
      have hwithin (n : Node) : (Field.node n).Within limit ↔ n.depth ≤ limit := by
        simp [Field.Within, Field.children]
      exact (hnodes n m).imp (iff_of_eq (Field.node.injEq n m)) (hwithin n) (hwithin m)
    | _ => exact .ofNe (by simp)
  | nodes list =>
    cases b with
    | nodes others =>
      rw [Field.map, Field.passes, List.length_map]
      split
      next =>
        exact (compares_allPass hnodes list others).imp
          (iff_of_eq (Field.nodes.injEq list others)) Iff.rfl Iff.rfl
      next hlength =>
        refine .ofNe fun heq => hlength ?_
        rw [Field.nodes.inj heq]
    | _ => exact .ofNe (by simp)
  | absent =>
    cases b with
    | absent => exact .ofEq (hnone rfl)
    | _ => exact .ofNe (by simp)

/-- Fields are compared by what they hold, whatever their names. -/
theorem compares_fieldsPass (as bs : List (String × Field Node)) :
    Compares (fun fields => ∀ field ∈ fields, Field.Within limit field)
      (fieldsPass (as.map fun entry => (entry.1, entry.2.map (Node.sameWithin limit))) bs)
      (as.map Prod.snd) (bs.map Prod.snd) := by
  induction as generalizing bs with
  | nil =>
    cases bs with
    | nil => exact .ofEq (by simp)
    | cons b bs => exact .ofNe (by simp)
  | cons a as ih =>
    cases bs with
    | nil => exact .ofNe (by simp)
    | cons b bs => exact (compares_passes hnodes a.2 b.2).cons (ih bs)

end

namespace Node

/-- **Trees within a limit are compared**, by induction on the limit. -/
theorem compares (limit : Nat) (a b : Node) :
    Compares (fun n => n.depth ≤ limit) (a.sameWithin limit b) a b := by
  induction limit generalizing a b with
  | zero =>
    have hdeep (n : Node) : ¬ n.depth ≤ 0 := Nat.not_le.2 n.depth_pos
    rw [sameWithin_zero]
    exact ⟨by simp [hdeep], nofun, fun _ => ⟨hdeep a, hdeep b⟩⟩
  | succ limit ih =>
    have hfits (n : Node) : n.depth ≤ limit + 1 ↔
        ∀ field ∈ n.fields.map Prod.snd, field.Within limit := by
      simp only [depth_le_succ_iff, children, List.forall_mem_flatMap, List.forall_mem_map]
      rfl
    rw [sameWithin_succ]
    split
    next hhead =>
      refine (compares_fieldsPass ih a.fields b.fields).imp ?_ (hfits a) (hfits b)
      refine ⟨?_, fun hparts => eq_of_parts hhead.1 hparts hhead.2⟩
      rintro rfl
      rfl
    next hhead =>
      refine .ofNe fun heq => hhead ?_
      rw [heq]
      exact ⟨rfl, rfl⟩

instance : DecidableEq Node := fun a b =>
  decidable_of_iff (a.sameWithin a.depth b = some true) (by simp [(compares a.depth a b).yes])

theorem same_slotRecord_iff {a b : Node} : a.slotRecord.same b.slotRecord = true ↔ a = b := by
  rw [slotRecord_eq, slotRecord_eq]
  refine ⟨eq_of_same_record, ?_⟩
  rintro rfl
  exact Json.same_self a.plain_record

/-- **Equality of trees is equality of their records, as far as trees can be compared.**

* Two trees have equal records, as maps and as values alike, exactly if they are the same.
* If nodes are nested within the limit in one of them, they compare as equal or not, as their
  records do.
* If they compare at all, so they do, however deep they are.
* Beyond the limit no two equal trees are found to be equal, though their records are. -/
theorem same_iff_records (a b : Node) :
    ((a.slotRecord.same b.slotRecord = true ↔ a = b) ∧ (a.slotRecord = b.slotRecord ↔ a = b)) ∧
    ∀ limit,
      (a.depth ≤ limit ∨ b.depth ≤ limit →
        a.sameWithin limit b = some (a.slotRecord.same b.slotRecord)) ∧
      (∀ answer, a.sameWithin limit b = some answer → answer = a.slotRecord.same b.slotRecord) ∧
      (limit < a.depth → a.slotRecord.same b.slotRecord = true → a.sameWithin limit b = none) := by
  have hvalues : a.slotRecord = b.slotRecord ↔ a = b := by
    rw [slotRecord_eq, slotRecord_eq]
    exact ⟨record_injective, congrArg record⟩
  refine ⟨⟨same_slotRecord_iff, hvalues⟩, fun limit => ?_⟩
  obtain ⟨hyes, hno, hnone⟩ := compares limit a b
  have hanswer : ∀ answer, a.sameWithin limit b = some answer →
      answer = a.slotRecord.same b.slotRecord := by
    intro answer h
    rw [Bool.eq_iff_iff, same_slotRecord_iff]
    cases answer with
    | true => simp [(hyes.1 h).1]
    | false => simp [hno h]
  refine ⟨fun hfits => ?_, hanswer, fun hdeep hsame => ?_⟩
  · rcases h : a.sameWithin limit b with _ | answer
    · exact absurd hfits (not_or.2 (hnone h))
    · rw [hanswer answer h]
  · rcases h : a.sameWithin limit b with _ | answer
    · rfl
    · rw [hanswer answer h, hsame] at h
      exact absurd (hyes.1 h).2 (Nat.not_le.2 hdeep)

/-- **A long sum is not found to be equal to itself**, though it has one record only. -/
theorem same_sum_recursionLimit :
    (sum recursionLimit).same (sum recursionLimit) = none ∧
    (sum recursionLimit).slotRecord.same (sum recursionLimit).slotRecord = true := by
  refine ⟨?_, same_slotRecord_iff.2 rfl⟩
  rcases h : (sum recursionLimit).same (sum recursionLimit) with _ | answer
  · rfl
  · obtain ⟨hyes, hno, -⟩ := compares recursionLimit (sum recursionLimit) (sum recursionLimit)
    cases answer with
    | true =>
      have hfits : (sum recursionLimit).depth ≤ recursionLimit := (hyes.1 h).2
      rw [depth_sum] at hfits
      exact absurd hfits (Nat.not_succ_le_self _)
    | false => exact absurd rfl (hno h)

example : (loop [] .start).same (repeatLoop [] .start) = some false := by cbv

example : (ifElse (bare .start) [] none .start).same
    (ifElse (bare .start) [] (some []) .start) = some false := by cbv

end Node

end ScriptFrontend
