import ScriptFrontend.Proofs.Json.Limits
import ScriptFrontend.Proofs.Json.Scalar

/-!
# Proofs/Json/Written — a written value is read back

A value is **plain** if its objects name each member once and no floating-point number is in it.
A plain value is what its text is read as, be it written on one line or with every item on a line of
its own (`readFully_written`): both layouts put blanks and nothing else around items, and a comma
between them (`Layout.Blank`).

The induction is on the value.  What it carries is that the value is read back in front of anything
that does not go on with a number (`ReadBack`), by any reader whose limits the text of the value
keeps.
-/

namespace ScriptFrontend.Json

/-- **A value that is read back**: no object names a member twice, and no number is of floating
point. -/
inductive Plain : Json → Prop where
  | null : Plain .null
  | bool (value : Bool) : Plain (.bool value)
  | int (value : Int) : Plain (.int value)
  | string (value : String) : Plain (.string value)
  | array {items : List Json} : (∀ item ∈ items, Plain item) → Plain (.array items)
  | object {members : List (String × Json)} : (members.map Prod.fst).Nodup →
    (∀ member ∈ members, Plain member.2) → Plain (.object members)

/-! ## The characters of a written value -/

mutual

/-- The characters of a value at a depth. -/
def chars (layout : Layout) (depth : Nat) : Json → List Char
  | .array (first :: rest) =>
    '[' :: ((layout.opening depth).toList ++ (chars layout (depth + 1) first ++
      (itemChars layout depth rest ++ ((layout.closing depth).toList ++ [']']))))
  | .object ((name, first) :: rest) =>
    '\x7b' :: ((layout.opening depth).toList ++ ((writtenText name).toList ++ (':' :: ' ' ::
      (chars layout (depth + 1) first ++
        (memberChars layout depth rest ++ ((layout.closing depth).toList ++ ['\x7d']))))))
  | scalar => (writtenScalar scalar).toList

/-- The characters of the further items of an array. -/
def itemChars (layout : Layout) (depth : Nat) : List Json → List Char
  | [] => []
  | item :: rest =>
    (layout.comma depth).toList ++ (chars layout (depth + 1) item ++ itemChars layout depth rest)

/-- The characters of the further members of an object. -/
def memberChars (layout : Layout) (depth : Nat) : List (String × Json) → List Char
  | [] => []
  | (name, value) :: rest =>
    (layout.comma depth).toList ++ ((writtenText name).toList ++ (':' :: ' ' ::
      (chars layout (depth + 1) value ++ memberChars layout depth rest)))

end

mutual

theorem toList_writeBehind (layout : Layout) (depth : Nat) (out : String) :
    ∀ json, (writeBehind layout depth out json).toList = out.toList ++ chars layout depth json
  | .array (first :: rest) => by
    simp [writeBehind, chars, toList_writeItems, toList_writeBehind]
  | .object ((name, first) :: rest) => by
    simp [writeBehind, chars, toList_writeMembers, toList_writeBehind]
  | .array [] | .object [] | .null | .bool _ | .int _ | .float _ | .string _ => by
    simp [writeBehind, chars]

theorem toList_writeItems (layout : Layout) (depth : Nat) (out : String) :
    ∀ items, (writeItems layout depth out items).toList = out.toList ++ itemChars layout depth items
  | [] => by simp [writeItems, itemChars]
  | item :: rest => by
    simp [writeItems, itemChars, toList_writeItems, toList_writeBehind]

theorem toList_writeMembers (layout : Layout) (depth : Nat) (out : String) :
    ∀ members, (writeMembers layout depth out members).toList =
      out.toList ++ memberChars layout depth members
  | [] => by simp [writeMembers, memberChars]
  | (name, value) :: rest => by
    simp [writeMembers, memberChars, toList_writeMembers, toList_writeBehind]

end

/-! ## Layouts -/

/-- A layout puts blanks around items, and a comma between them. -/
structure Layout.Blank (layout : Layout) : Prop where
  opening : ∀ depth, ∀ c ∈ (layout.opening depth).toList, isGap c = true
  comma : ∀ depth, ∃ gap, (layout.comma depth).toList = ',' :: gap ∧ ∀ c ∈ gap, isGap c = true
  closing : ∀ depth, ∀ c ∈ (layout.closing depth).toList, isGap c = true

theorem blank_compact : Layout.compact.Blank where
  opening := by simp [Layout.compact]
  comma _ := ⟨[' '], by simp [Layout.compact], by simp [isGap]⟩
  closing := by simp [Layout.compact]

theorem isGap_newLine (depth : Nat) : ∀ c ∈ (newLine depth).toList, isGap c = true := by
  intro c hmem
  simp only [newLine, String.toList_append, String.toList_ofList, List.mem_append] at hmem
  rcases hmem with hmem | hmem
  · obtain rfl : c = '\n' := by simpa using hmem
    decide
  · rw [List.eq_of_mem_replicate hmem]
    decide

theorem blank_pretty : Layout.pretty.Blank where
  opening _ := isGap_newLine _
  comma depth := ⟨(newLine (depth + 1)).toList, by simp [Layout.pretty], isGap_newLine _⟩
  closing _ := isGap_newLine _

theorem skipGap_append {gap rest : List Char} (h : ∀ c ∈ gap, isGap c = true) :
    skipGap (gap ++ rest) = skipGap rest :=
  List.dropWhile_append_of_pos h

theorem skipGap_cons {c : Char} {rest : List Char} (h : isGap c = false) :
    skipGap (c :: rest) = c :: rest := by
  simp [skipGap, h]

/-! ## Values -/

/-- The characters of a value start with one that is neither a blank nor a closing bracket. -/
def Begins (chars : List Char) : Prop :=
  ∃ c rest, chars = c :: rest ∧ isGap c = false ∧ c ≠ ']' ∧ c ≠ '\x7d'

/-- **A reader gives a value back**, in front of anything that does not go on with a number. -/
structure ReadBack (inner : ValueReader) (layout : Layout) (depth : Nat) (json : Json) : Prop where
  begins : Begins (chars layout depth json)
  back : ∀ rest, EndsNumber rest →
    (inner (chars layout depth json ++ rest)).outcome = .ok (json, rest)

variable {layout : Layout} {depth longest room : Nat} {inner : ValueReader}

theorem skipGap_begins {gap value rest : List Char} (hgap : ∀ c ∈ gap, isGap c = true)
    (hvalue : Begins value) : skipGap (gap ++ (value ++ rest)) = value ++ rest := by
  obtain ⟨c, behind, rfl, hc, -⟩ := hvalue
  rw [skipGap_append hgap, List.cons_append, skipGap_cons hc]

/-- What stands behind an item ends a number. -/
theorem endsNumber_itemChars (hlayout : layout.Blank) (items : List Json) (tail : List Char) :
    EndsNumber (itemChars layout depth items ++
      ((layout.closing depth).toList ++ ']' :: tail)) := by
  rcases items with _ | ⟨item, items⟩
  · rw [itemChars, List.nil_append]
    exact endsNumber_gap (hlayout.closing depth) (endsNumber_cons tail (by decide))
  · obtain ⟨gap, hcomma, -⟩ := hlayout.comma depth
    rw [itemChars, hcomma]
    exact endsNumber_cons _ (by decide)

/-- **The items of an array are read back**, by induction on those behind the first one. -/
theorem outcome_items_written (hlayout : layout.Blank) (items : List Json) (tail : List Char) :
    ∀ (first : Json) (read : List Json) (gap : List Char), (∀ c ∈ gap, isGap c = true) →
      (∀ item ∈ first :: items, ReadBack inner layout (depth + 1) item) →
      (Json.items inner read (gap ++ (chars layout (depth + 1) first ++
        (itemChars layout depth items ++
          ((layout.closing depth).toList ++ ']' :: tail))))).outcome =
            .ok (read.reverse ++ first :: items, tail) := by
  induction items with
  | nil =>
    intro first read gap hgap hback
    rw [outcome_items, skipGap_begins hgap (hback first List.mem_cons_self).begins,
      (hback first List.mem_cons_self).back _ (endsNumber_itemChars hlayout [] tail)]
    simp only [itemChars, List.nil_append, skipGap_append (hlayout.closing depth)]
    rw [skipGap_cons (by decide)]
    simp
  | cons second items ih =>
    intro first read gap hgap hback
    obtain ⟨blanks, hcomma, hblanks⟩ := hlayout.comma depth
    have hnext := ih second (first :: read) blanks hblanks fun item hmem =>
      hback item (List.mem_cons_of_mem _ hmem)
    rw [outcome_items, skipGap_begins hgap (hback first List.mem_cons_self).begins,
      (hback first List.mem_cons_self).back _ (endsNumber_itemChars hlayout (second :: items) tail)]
    simp only [itemChars, hcomma, List.cons_append, List.append_assoc]
    rw [skipGap_cons (by decide)]
    simpa using hnext

theorem endsNumber_memberChars (hlayout : layout.Blank) (members : List (String × Json))
    (tail : List Char) :
    EndsNumber (memberChars layout depth members ++
      ((layout.closing depth).toList ++ '\x7d' :: tail)) := by
  rcases members with _ | ⟨member, members⟩
  · rw [memberChars, List.nil_append]
    exact endsNumber_gap (hlayout.closing depth) (endsNumber_cons tail (by decide))
  · obtain ⟨gap, hcomma, -⟩ := hlayout.comma depth
    rw [memberChars, hcomma]
    exact endsNumber_cons _ (by decide)

theorem outcome_memberName_written (name : String) {gap rest : List Char}
    (hgap : ∀ c ∈ gap, isGap c = true) :
    (memberName (gap ++ ((writtenText name).toList ++ ':' :: rest))).outcome =
      .ok (name, rest) := by
  have hbody := outcome_textBody_written name.toList [] (':' :: rest)
  rw [outcome_memberName, skipGap_append hgap, writtenText, String.toList_ofList, List.append_assoc,
    List.cons_append, List.singleton_append, skipGap_cons (by decide)]
  simp only [hbody]
  rw [skipGap_cons (by decide)]
  simp

/-- A member with a new name goes behind the others. -/
theorem put_new {read : List (String × Json)} {name : String} (value : Json)
    (h : name ∉ read.map Prod.fst) : put read name value = read ++ [(name, value)] := by
  induction read with
  | nil => rfl
  | cons first read ih =>
    obtain ⟨hne, hrest⟩ := not_or.1 (mt List.mem_cons.2 h)
    rw [put, if_neg (Ne.symm hne), ih hrest, List.cons_append]

/-- **The members of an object are read back**, by induction on those behind the first one. -/
theorem outcome_members_written (hlayout : layout.Blank) (members : List (String × Json))
    (tail : List Char) :
    ∀ (name : String) (first : Json) (read : List (String × Json)) (gap : List Char),
      (∀ c ∈ gap, isGap c = true) →
      ((read ++ (name, first) :: members).map Prod.fst).Nodup →
      (∀ member ∈ (name, first) :: members, ReadBack inner layout (depth + 1) member.2) →
      (Json.members inner read (gap ++ ((writtenText name).toList ++ (':' :: ' ' ::
        (chars layout (depth + 1) first ++ (memberChars layout depth members ++
          ((layout.closing depth).toList ++ '\x7d' :: tail))))))).outcome =
            .ok (read ++ (name, first) :: members, tail) := by
  have hblank : ∀ c ∈ [' '], isGap c = true := by simp [isGap]
  induction members with
  | nil =>
    intro name first read gap hgap hnames hback
    have hnew : name ∉ read.map Prod.fst := by
      simp only [List.map_append, List.nodup_append] at hnames
      exact fun hmem => hnames.2.2 name hmem name (by simp) rfl
    rw [outcome_members, outcome_memberName_written name hgap]
    simp only
    rw [← List.singleton_append, skipGap_begins hblank (hback _ List.mem_cons_self).begins,
      (hback _ List.mem_cons_self).back _ (endsNumber_memberChars hlayout [] tail)]
    simp only [memberChars, List.nil_append, skipGap_append (hlayout.closing depth)]
    rw [skipGap_cons (by decide)]
    simp [put_new first hnew]
  | cons second members ih =>
    intro name first read gap hgap hnames hback
    obtain ⟨blanks, hcomma, hblanks⟩ := hlayout.comma depth
    have hnew : name ∉ read.map Prod.fst := by
      simp only [List.map_append, List.nodup_append] at hnames
      exact fun hmem => hnames.2.2 name hmem name (by simp) rfl
    have hnext := ih second.1 second.2 (read ++ [(name, first)]) blanks hblanks
      (by simpa using hnames) fun member hmem => hback member (List.mem_cons_of_mem _ hmem)
    rw [outcome_members, outcome_memberName_written name hgap]
    simp only
    rw [← List.singleton_append, skipGap_begins hblank (hback _ List.mem_cons_self).begins,
      (hback _ List.mem_cons_self).back _ (endsNumber_memberChars hlayout (second :: members) tail)]
    simp only [memberChars, hcomma, List.cons_append, List.append_assoc]
    rw [skipGap_cons (by decide)]
    simpa [put_new first hnew] using hnext

/-! ## The induction on the value -/

theorem length_le_itemChars {item : Json} {items : List Json} (h : item ∈ items) :
    (chars layout (depth + 1) item).length ≤ (itemChars layout depth items).length := by
  induction items with
  | nil => simp at h
  | cons first items ih =>
    rw [itemChars, List.length_append, List.length_append]
    rcases List.mem_cons.1 h with rfl | hmem
    · omega
    · have := ih hmem
      omega

theorem length_le_memberChars {member : String × Json} {members : List (String × Json)}
    (h : member ∈ members) :
    (chars layout (depth + 1) member.2).length ≤ (memberChars layout depth members).length := by
  induction members with
  | nil => simp at h
  | cons first members ih =>
    simp only [memberChars, List.length_append, List.length_cons]
    rcases List.mem_cons.1 h with rfl | hmem
    · omega
    · have := ih hmem
      omega

/-- A scalar is read back by the reader of scalars, and so by that of values. -/
theorem readBack_scalar {json : Json}
    (hchars : chars layout depth json = (writtenScalar json).toList)
    (hbegins : Begins (writtenScalar json).toList)
    (hflat : ∀ rest, Flat ((writtenScalar json).toList ++ rest))
    (hback : ∀ rest, EndsNumber rest →
      (scalar longest ((writtenScalar json).toList ++ rest)).outcome = .ok (json, rest)) :
    ReadBack (value longest room) layout depth json where
  begins := hchars ▸ hbegins
  back rest hrest := by rw [hchars, value_flat (hflat rest), hback rest hrest]

theorem outcome_arrayBody_begins {gap value rest : List Char} (hgap : ∀ c ∈ gap, isGap c = true)
    (hvalue : Begins value) :
    (arrayBody inner (gap ++ (value ++ rest))).outcome =
      onRead .array (items inner [] (gap ++ (value ++ rest))).outcome := by
  rw [outcome_arrayBody, skipGap_begins hgap hvalue]
  obtain ⟨c, behind, rfl, -, hne, -⟩ := hvalue
  split
  next heq => exact absurd (List.cons.inj heq).1 hne
  next => rfl

theorem outcome_objectBody_begins {gap value rest : List Char} (hgap : ∀ c ∈ gap, isGap c = true)
    (hvalue : Begins value) :
    (objectBody inner (gap ++ (value ++ rest))).outcome =
      onRead .object (members inner [] (gap ++ (value ++ rest))).outcome := by
  rw [outcome_objectBody, skipGap_begins hgap hvalue]
  obtain ⟨c, behind, rfl, -, -, hne⟩ := hvalue
  split
  next heq => exact absurd (List.cons.inj heq).1 hne
  next => rfl

theorem begins_writtenText (text : String) : Begins (writtenText text).toList :=
  ⟨'"', text.toList.flatMap escapeChar ++ ['"'], by simp [writtenText], by decide⟩

theorem flat_cons {c : Char} {text : List Char} (h : c ≠ '[' ∧ c ≠ '\x7b') : Flat (c :: text) := by
  intro rest
  exact ⟨fun heq => h.1 (List.cons.inj heq).1, fun heq => h.2 (List.cons.inj heq).1⟩

/-- A value is read back, at every depth, within limits that its text keeps. -/
def Kept (layout : Layout) (json : Json) : Prop :=
  ∀ depth longest room, (chars layout depth json).length ≤ longest →
    (chars layout depth json).length ≤ room → ReadBack (value longest room) layout depth json

theorem kept_array (hlayout : layout.Blank) {items : List Json}
    (h : ∀ item ∈ items, Kept layout item) : Kept layout (.array items) := by
  intro depth longest room hlongest hroom
  rcases items with _ | ⟨first, items⟩
  · obtain ⟨room, rfl⟩ : ∃ less, room = less + 1 :=
      Nat.exists_eq_add_one.2 (Nat.lt_of_lt_of_le (by simp [chars, writtenScalar]) hroom)
    exact ⟨⟨'[', _, rfl, by decide⟩, fun rest _ => outcome_value_array _⟩
  · have htext (tail : List Char) : chars layout depth (.array (first :: items)) ++ tail =
        '[' :: ((layout.opening depth).toList ++ (chars layout (depth + 1) first ++
          (itemChars layout depth items ++ ((layout.closing depth).toList ++ ']' :: tail)))) := by
      simp [chars]
    have hbracket := htext []
    rw [List.append_nil] at hbracket
    obtain ⟨room, rfl⟩ : ∃ less, room = less + 1 :=
      Nat.exists_eq_add_one.2 (Nat.lt_of_lt_of_le (by simp [hbracket]) hroom)
    have hback : ∀ item ∈ first :: items,
        ReadBack (value longest room) layout (depth + 1) item := by
      intro item hmem
      have hlength : (chars layout (depth + 1) item).length + 1 ≤
          (chars layout depth (.array (first :: items))).length := by
        simp only [chars, List.length_cons, List.length_append]
        rcases List.mem_cons.1 hmem with rfl | hmem
        · omega
        · have hitem : _ ≤ (itemChars layout depth items).length := length_le_itemChars hmem
          omega
      exact h item hmem _ _ _ (by omega) (by omega)
    refine ⟨⟨'[', _, hbracket, by decide⟩, fun rest _ => ?_⟩
    have hitems := outcome_items_written hlayout items rest first [] _ (hlayout.opening depth) hback
    rw [htext, outcome_value_array, outcome_arrayBody_begins (hlayout.opening depth)
      (hback _ List.mem_cons_self).begins]
    exact congrArg (onRead _) hitems

theorem kept_object (hlayout : layout.Blank) {members : List (String × Json)}
    (hnames : (members.map Prod.fst).Nodup) (h : ∀ member ∈ members, Kept layout member.2) :
    Kept layout (.object members) := by
  intro depth longest room hlongest hroom
  rcases members with _ | ⟨⟨name, first⟩, members⟩
  · obtain ⟨room, rfl⟩ : ∃ less, room = less + 1 :=
      Nat.exists_eq_add_one.2 (Nat.lt_of_lt_of_le (by simp [chars, writtenScalar]) hroom)
    exact ⟨⟨'\x7b', _, rfl, by decide⟩, fun rest _ => outcome_value_object _⟩
  · have htext (tail : List Char) :
        chars layout depth (.object ((name, first) :: members)) ++ tail =
        '\x7b' :: ((layout.opening depth).toList ++ ((writtenText name).toList ++ (':' :: ' ' ::
          (chars layout (depth + 1) first ++ (memberChars layout depth members ++
            ((layout.closing depth).toList ++ '\x7d' :: tail)))))) := by
      simp [chars]
    have hbrace := htext []
    rw [List.append_nil] at hbrace
    obtain ⟨room, rfl⟩ : ∃ less, room = less + 1 :=
      Nat.exists_eq_add_one.2 (Nat.lt_of_lt_of_le (by simp [hbrace]) hroom)
    have hback : ∀ member ∈ (name, first) :: members,
        ReadBack (value longest room) layout (depth + 1) member.2 := by
      intro member hmem
      have hlength : (chars layout (depth + 1) member.2).length + 1 ≤
          (chars layout depth (.object ((name, first) :: members))).length := by
        simp only [chars, List.length_cons, List.length_append]
        rcases List.mem_cons.1 hmem with rfl | hmem
        · dsimp only
          omega
        · have hmember : _ ≤ (memberChars layout depth members).length := length_le_memberChars hmem
          omega
      exact h member hmem _ _ _ (by omega) (by omega)
    refine ⟨⟨'\x7b', _, hbrace, by decide⟩, fun rest _ => ?_⟩
    have hmembers := outcome_members_written hlayout members rest name first [] _
      (hlayout.opening depth) hnames hback
    rw [htext, outcome_value_object, outcome_objectBody_begins (hlayout.opening depth)
      (begins_writtenText name)]
    exact congrArg (onRead _) hmembers

/-- **A plain value is read back** within limits that its text keeps, by induction on the value. -/
theorem kept_of_plain (hlayout : layout.Blank) {json : Json} (hplain : Plain json) :
    Kept layout json := by
  induction hplain with
  | null =>
    intro depth longest room _ _
    exact readBack_scalar rfl ⟨'n', _, rfl, by decide⟩ (fun _ => flat_cons (by decide))
      fun rest _ => outcome_scalar_word (.inl rfl)
  | bool truth =>
    intro depth longest room _ _
    cases truth with
    | true =>
      exact readBack_scalar rfl ⟨'t', _, rfl, by decide⟩ (fun _ => flat_cons (by decide))
        fun rest _ => outcome_scalar_word (.inr (.inl rfl))
    | false =>
      exact readBack_scalar rfl ⟨'f', _, rfl, by decide⟩ (fun _ => flat_cons (by decide))
        fun rest _ => outcome_scalar_word (.inr (.inr rfl))
  | string text =>
    intro depth longest room _ _
    refine readBack_scalar rfl (begins_writtenText text) (fun _ => ?_)
      fun rest _ => outcome_scalar_string text
    rw [writtenScalar, writtenText, String.toList_ofList]
    exact flat_cons (by decide)
  | int n =>
    intro depth longest room hlongest _
    obtain ⟨c, digits, hint, hc⟩ := head_int n
    refine readBack_scalar rfl ⟨c, digits, hint, hc.1, hc.2.1, hc.2.2.1⟩ (fun _ => ?_)
      fun rest hrest => outcome_scalar_int n hrest hlongest
    rw [writtenScalar, hint]
    exact flat_cons hc.2.2.2
  | array _ ih => exact kept_array hlayout ih
  | object hnames _ ih => exact kept_object hlayout hnames ih

/-- **A plain value is what its text is read as**, with a line end behind it. -/
theorem readFully_written (hlayout : layout.Blank) {json : Json} (hplain : Plain json) :
    readFully (writeBehind layout 0 "" json ++ "\n") = .ok json := by
  have htext : (writeBehind layout 0 "" json ++ "\n").toList = chars layout 0 json ++ ['\n'] := by
    rw [String.toList_append, toList_writeBehind]
    rfl
  have hlength : (chars layout 0 json).length ≤
      (writeBehind layout 0 "" json ++ "\n").length := by
    rw [← String.length_toList, htext, List.length_append]
    exact Nat.le_add_right _ _
  obtain ⟨hbegins, hback⟩ := kept_of_plain hlayout hplain _ _ _ hlength hlength
  have hgap : skipGap ([] ++ (chars layout 0 json ++ ['\n'])) = chars layout 0 json ++ ['\n'] :=
    skipGap_begins (by simp) hbegins
  rw [List.nil_append] at hgap
  rw [readFully, readWithin_eq, htext, hgap, hback _ (endsNumber_cons [] (by decide))]
  rfl

/-! ## ASCII -/

theorem ascii_gap {gap : List Char} (h : ∀ c ∈ gap, isGap c = true) : Ascii gap := by
  intro c hmem
  have hc := h c hmem
  simp only [isGap, Bool.or_eq_true, beq_iff_eq] at hc
  rcases hc with ((rfl | rfl) | rfl) | rfl <;> decide

theorem ascii_comma (hlayout : layout.Blank) (depth : Nat) : Ascii (layout.comma depth).toList := by
  obtain ⟨gap, hcomma, hgap⟩ := hlayout.comma depth
  exact hcomma ▸ ascii_cons (by decide) (ascii_gap hgap)

theorem ascii_itemChars (hlayout : layout.Blank) {items : List Json}
    (h : ∀ item ∈ items, Ascii (chars layout (depth + 1) item)) :
    Ascii (itemChars layout depth items) := by
  induction items with
  | nil => exact ascii_nil
  | cons first items ih =>
    obtain ⟨hfirst, hrest⟩ := List.forall_mem_cons.1 h
    exact ascii_append (ascii_comma hlayout depth) (ascii_append hfirst (ih hrest))

theorem ascii_memberChars (hlayout : layout.Blank) {members : List (String × Json)}
    (h : ∀ member ∈ members, Ascii (chars layout (depth + 1) member.2)) :
    Ascii (memberChars layout depth members) := by
  induction members with
  | nil => exact ascii_nil
  | cons first members ih =>
    obtain ⟨hfirst, hrest⟩ := List.forall_mem_cons.1 h
    exact ascii_append (ascii_comma hlayout depth) (ascii_append (ascii_writtenText _)
      (ascii_cons (by decide) (ascii_cons (by decide) (ascii_append hfirst (ih hrest)))))

/-- **A plain value is written in ASCII**, by induction on the value. -/
theorem ascii_chars (hlayout : layout.Blank) {json : Json} (hplain : Plain json) :
    ∀ depth, Ascii (chars layout depth json) := by
  have hbracket : Ascii [']'] := ascii_cons (by decide) ascii_nil
  have hbrace : Ascii ['\x7d'] := ascii_cons (by decide) ascii_nil
  induction hplain with
  | null => exact fun _ => by simp [chars, writtenScalar, Ascii]
  | bool truth => exact fun _ => by cases truth <;> simp [chars, writtenScalar, Ascii]
  | int n => exact fun _ => ascii_int n
  | string text => exact fun _ => ascii_writtenText text
  | @array items _ ih =>
    intro depth
    rcases items with _ | ⟨first, items⟩
    · simp [chars, writtenScalar, Ascii]
    obtain ⟨hfirst, hrest⟩ := List.forall_mem_cons.1 ih
    have hbody := ascii_append (hfirst (depth + 1))
      (ascii_append (ascii_itemChars hlayout fun item hmem => hrest item hmem (depth + 1))
        (ascii_append (ascii_gap (hlayout.closing depth)) hbracket))
    exact ascii_cons (by decide) (ascii_append (ascii_gap (hlayout.opening depth)) hbody)
  | @object members _ _ ih =>
    intro depth
    rcases members with _ | ⟨⟨name, first⟩, members⟩
    · simp [chars, writtenScalar, Ascii]
    obtain ⟨hfirst, hrest⟩ := List.forall_mem_cons.1 ih
    have hbody := ascii_append (hfirst (depth + 1))
      (ascii_append (ascii_memberChars hlayout fun member hmem => hrest member hmem (depth + 1))
        (ascii_append (ascii_gap (hlayout.closing depth)) hbrace))
    exact ascii_cons (by decide) (ascii_append (ascii_gap (hlayout.opening depth))
      (ascii_append (ascii_writtenText name)
        (ascii_cons (by decide) (ascii_cons (by decide) hbody))))

end ScriptFrontend.Json
