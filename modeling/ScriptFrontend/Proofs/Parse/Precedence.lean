import ScriptFrontend.Proofs.Parse.Concat
import ScriptFrontend.Proofs.Parse.Cursor

/-!
# Proofs/Parse/Precedence — expression trees, however they are written

An `OperatorTree` is what an expression means: leaves, prefix operators and binary operators, with
no word about parentheses.  A tree is written (`WrittenAs`) with parentheses around every operation
that the place where it stands (`Slot`) would take apart,

    left of a binary operator    an operation that binds less tightly
    right of a binary operator   an operation that binds no tighter
    behind a prefix operator     any binary operation

and with further ones anywhere.  `OperatorTree.written` is the writing with the fewest, so every
tree has one.

The parser of the slot's rank reads a writing back (`WrittenAs.readAs`), by induction on the
writing.  At a level the loop goes on, so what carries the induction is not what the parser answers
but the value that the loop has behind the word (`ReadAs`); and what is read at a tight rank is so
at every looser one (`ReadAs.loosen`).  It takes as much room as the writing is deep, and stops at
whatever is no binary operator (`groupedAs_of_writtenAs`).
-/

namespace ScriptFrontend

open Grammar

/-! ## Trees and their writings -/

/-- How tightly the operators of a level bind. -/
def Level.tightness : Level → Nat
  | .equality => 0
  | .comparison => 1
  | .term => 2
  | .factor => 3

/-- **What an expression means**, over the tokens of its leaves and its operators. -/
inductive OperatorTree where
  | number (token : Token) (h : token.kind = .number)
  | text (token : Token) (h : token.kind = .text)
  | identifier (token : Token) (h : token.kind = .identifier)
  | signed (op : Token) (h : isPrefixOperator op.kind = true) (operand : OperatorTree)
  | joined (level : Level) (left : OperatorTree) (op : Token) (h : level.has op.kind = true)
    (right : OperatorTree)

/-- Where a tree stands: on its own or in parentheses, behind a prefix operator, or left or right of
a binary operator. -/
inductive Slot where
  | whole
  | operand
  | left (level : Level)
  | right (level : Level)

/-- Whether an operation of a level has to stand in parentheses. -/
def Slot.encloses : Slot → Level → Bool
  | whole, _ => false
  | operand, _ => true
  | left outer, level => level.tightness < outer.tightness
  | right outer, level => level.tightness ≤ outer.tightness

/-- **The ways to write a tree**: in parentheses wherever it has to be, and wherever else.  The
depth is that of the parentheses and the prefix operators inside each other. -/
inductive WrittenAs : Slot → OperatorTree → (depth : Nat) → List Token → Prop where
  | number {slot : Slot} {token : Token} (h : token.kind = .number) :
    WrittenAs slot (.number token h) 0 [token]
  | text {slot : Slot} {token : Token} (h : token.kind = .text) :
    WrittenAs slot (.text token h) 0 [token]
  | identifier {slot : Slot} {token : Token} (h : token.kind = .identifier) :
    WrittenAs slot (.identifier token h) 0 [token]
  | signed {slot : Slot} {op : Token} {operand : OperatorTree} {depth : Nat} {word : List Token}
    (h : isPrefixOperator op.kind = true) :
    WrittenAs .operand operand depth word →
    WrittenAs slot (.signed op h operand) (depth + 1) (op :: word)
  | joined {slot : Slot} {level : Level} {left right : OperatorTree} {op : Token}
    {leftDepth rightDepth : Nat} {front back : List Token} (h : level.has op.kind = true) :
    slot.encloses level = false → WrittenAs (.left level) left leftDepth front →
    WrittenAs (.right level) right rightDepth back →
    WrittenAs slot (.joined level left op h right) (max leftDepth rightDepth) (front ++ op :: back)
  | group {slot : Slot} {tree : OperatorTree} {opening closing : Token} {depth : Nat}
    {word : List Token} :
    opening.kind = .mark .leftParen → WrittenAs .whole tree depth word →
    closing.kind = .mark .rightParen →
    WrittenAs slot tree (depth + 1) (opening :: (word ++ [closing]))

namespace OperatorTree

/-- The tree as a node.  Operations stand at the places of their operators. -/
def node : OperatorTree → Node
  | number token _ => .literal token.lexeme "int" token.place
  | text token _ => .literal (unwrapped token.lexeme) "string" token.place
  | identifier token _ => .identifier token.lexeme token.place
  | signed op _ operand => .unary op.lexeme operand.node op.place
  | joined _ left op _ right => .binary left.node op.lexeme right.node op.place

/-- Tokens in parentheses, or as they are. -/
def enclosedIf (needed : Bool) (word : List Token) : List Token :=
  if needed then ⟨.mark .leftParen, "(", .start⟩ :: (word ++ [⟨.mark .rightParen, ")", .start⟩])
  else word

/-- The writing with the fewest parentheses. -/
def written : OperatorTree → Slot → List Token
  | number token _, _ | text token _, _ | identifier token _, _ => [token]
  | signed op _ operand, _ => op :: operand.written .operand
  | joined level left op _ right, slot =>
    enclosedIf (slot.encloses level)
      (left.written (.left level) ++ op :: right.written (.right level))

/-- **Every tree can be written**, by induction on it. -/
theorem writtenAs_written (tree : OperatorTree) (slot : Slot) :
    ∃ depth, WrittenAs slot tree depth (tree.written slot) := by
  induction tree generalizing slot with
  | number token h => exact ⟨0, .number h⟩
  | text token h => exact ⟨0, .text h⟩
  | identifier token h => exact ⟨0, .identifier h⟩
  | signed op h operand ih =>
    obtain ⟨depth, hoperand⟩ := ih .operand
    exact ⟨depth + 1, .signed h hoperand⟩
  | joined level left op h right ihleft ihright =>
    obtain ⟨leftDepth, hleft⟩ := ihleft (.left level)
    obtain ⟨rightDepth, hright⟩ := ihright (.right level)
    rw [written, enclosedIf]
    split
    · exact ⟨_, .group rfl (.joined h rfl hleft hright) rfl⟩
    next hneeded => exact ⟨_, .joined h (by simpa using hneeded) hleft hright⟩

end OperatorTree

/-- No token of a writing ends the text. -/
theorem WrittenAs.endFree {slot : Slot} {tree : OperatorTree} {depth : Nat} {word : List Token}
    (h : WrittenAs slot tree depth word) : EndFree word := by
  induction h with
  | number h | text h | identifier h => simp [h]
  | signed h _ ih => rcases isPrefixOperator_iff.1 h with hop | hop <;> simp [hop, ih]
  | joined h _ _ _ ihleft ihright =>
    obtain ⟨symbol, -, hkind⟩ := Level.has_iff.1 h
    simp [hkind, ihleft, ihright]
  | group hopening _ hclosing ih => simp [hopening, hclosing, ih]

/-! ## Ranks -/

namespace Grammar

/-- How tightly the expressions of a rank hold together. -/
def Rank.tightness : Rank → Nat
  | .level operators => operators.tightness
  | .unary => 4
  | .primary => 5

theorem Rank.eq_of_tightness {rank other : Rank} (h : rank.tightness = other.tightness) :
    rank = other := by
  rcases rank with (_ | _ | _ | _) | _ | _ <;> rcases other with (_ | _ | _ | _) | _ | _ <;>
    simp_all [tightness, Level.tightness]

theorem Rank.tightness_le (rank : Rank) : rank.tightness ≤ 5 := by
  rcases rank with (_ | _ | _ | _) | _ | _ <;> decide

theorem tightness_operandOf (level : Level) :
    (operandOf level).tightness = (Rank.level level).tightness + 1 := by
  cases level <;> rfl

/-- The kinds that expressions of a rank go on with: the operators that bind as tightly. -/
def Rank.goesOn (rank : Rank) (kind : Kind) : Prop :=
  ∃ level : Level, rank.tightness ≤ level.tightness ∧ level.has kind = true

theorem not_goesOn_operandOf {level : Level} {kind : Kind} (h : level.has kind = true) :
    ¬ (operandOf level).goesOn kind := by
  rintro ⟨other, hle, hother⟩
  obtain rfl := Level.eq_of_has h hother
  rw [tightness_operandOf] at hle
  exact Nat.not_succ_le_self _ hle

theorem goesOn_of_operandOf {level : Level} {kind : Kind} (h : (operandOf level).goesOn kind) :
    (Rank.level level).goesOn kind := by
  obtain ⟨other, hle, hother⟩ := h
  rw [tightness_operandOf] at hle
  exact ⟨other, Nat.le_of_succ_le hle, hother⟩

end Grammar

/-- The rank of what may stand in a slot without parentheses. -/
def Slot.rank : Slot → Rank
  | whole => .level .equality
  | operand => .unary
  | left level => .level level
  | right level => operandOf level

theorem Slot.tightness_le (slot : Slot) : slot.rank.tightness ≤ Rank.unary.tightness := by
  rcases slot with _ | _ | (_ | _ | _ | _) | (_ | _ | _ | _) <;> decide

/-- What needs no parentheses in a slot is tight enough for it. -/
theorem Slot.tightness_le_of_encloses {slot : Slot} {level : Level}
    (h : slot.encloses level = false) : slot.rank.tightness ≤ level.tightness := by
  cases slot with
  | whole => exact Nat.zero_le _
  | operand => simp [encloses] at h
  | left outer =>
    change outer.tightness ≤ level.tightness
    simpa [encloses] using h
  | right outer =>
    rw [rank, tightness_operandOf]
    change outer.tightness + 1 ≤ level.tightness
    simpa [encloses] using h

/-! ## Reading them back -/

namespace Parser

/-- The parser of the expressions of a rank. -/
def ofRank (room : Nat) : Rank → Parser Node
  | .level .equality => equality room
  | .level .comparison => comparison room
  | .level .term => term room
  | .level .factor => factor room
  | .unary => unary room
  | .primary => primary room

theorem ofRank_level (room : Nat) (level : Level) :
    ofRank room (.level level) = chain level (ofRank room (operandOf level)) := by
  cases level <;> rfl

/-- **What a word is read as at a rank.**  At a level it is the value that the loop has behind the
word, as it goes on with the operators of the level. -/
def ReadAs (room : Nat) (word : List Token) (node : Node) : Rank → Prop
  | .level level => ∀ rest, Stops (operandOf level).goesOn rest →
    (ofRank room (.level level)).read (word ++ rest) =
      readWhile level.has (ofRank room (operandOf level))
        (fun left token right => .binary left token.lexeme right token.place) node rest
  | .unary => ∀ rest, (unary room).read (word ++ rest) = (.ok node, rest)
  | .primary => ∀ rest, (primary room).read (word ++ rest) = (.ok node, rest)

namespace ReadAs

variable {room : Nat} {word rest : List Token} {node : Node} {level : Level}

/-- In front of what does not go on with it, that is the answer. -/
theorem read {rank : Rank} (h : ReadAs room word node rank) (hrest : Stops rank.goesOn rest) :
    (ofRank room rank).read (word ++ rest) = (.ok node, rest) := by
  cases rank with
  | level level =>
    rw [h rest (hrest.mono fun _ => goesOn_of_operandOf)]
    rcases rest with _ | ⟨token, behind⟩
    · exact readWhile_nil ..
    · have hnot : ¬ level.has token.kind = true :=
        fun hhas => hrest token rfl ⟨level, Nat.le_refl _, hhas⟩
      rw [readWhile_cons, if_neg hnot]
  | unary => exact h rest
  | primary => exact h rest

/-- The first operand of a level. -/
theorem operand (h : ReadAs room word node (operandOf level)) :
    ReadAs room word node (.level level) := fun rest hrest => by
  rw [ofRank_level, chain, joinedWhile, read_foldWhile, h.read hrest]

/-- One operand of a level more. -/
theorem binary {front back : List Token} {op : Token} {left right : Node}
    (hleft : ReadAs room front left (.level level)) (hop : level.has op.kind = true)
    (hright : ReadAs room back right (operandOf level)) :
    ReadAs room (front ++ op :: back) (.binary left op.lexeme right op.place) (.level level) :=
  fun rest hrest => by
    have hstop : Stops (operandOf level).goesOn (op :: (back ++ rest)) := fun token hmem => by
      obtain rfl : op = token := by simpa using hmem
      exact not_goesOn_operandOf hop
    rw [List.append_assoc, List.cons_append, hleft _ hstop, readWhile_cons, if_pos hop,
      hright.read hrest]

/-- A prefix operator takes one unit of room. -/
theorem signed {op : Token} (h : ReadAs room word node .unary)
    (hop : isPrefixOperator op.kind = true) :
    ReadAs (room + 1) (op :: word) (.unary op.lexeme node op.place) .unary := fun rest => by
  rw [List.cons_append, unary_succ, read_unaryWith_cons, if_pos hop, read_map, h rest]
  rfl

/-- So do parentheses. -/
theorem group {opening closing : Token} (h : ReadAs room word node (.level .equality))
    (hopening : opening.kind = .mark .leftParen) (hclosing : closing.kind = .mark .rightParen) :
    ReadAs (room + 1) (opening :: (word ++ [closing])) node .primary := fun rest => by
  have hstop : Stops (Rank.level .equality).goesOn (closing :: rest) := by
    rintro token hmem ⟨level, -, hlevel⟩
    obtain rfl : closing = token := by simpa using hmem
    exact not_joinsOperands_mark _ ⟨level, hclosing ▸ hlevel⟩
  have hinner : (Parser.group (room + 1)).read (word ++ closing :: rest) =
      (.ok node, closing :: rest) := h.read hstop
  rw [List.cons_append, List.append_assoc, List.singleton_append, Parser.primary,
    read_primaryWith_cons, hopening]
  simp only [read_bind, hinner, Parser.as]
  rw [read_map, read_take_cons, if_pos hclosing]
  rfl

/-- An operand without prefix operators. -/
theorem primary (h : ReadAs room word node .primary) : ReadAs room word node .unary :=
  fun rest => by
    have hread : (Parser.primary room).read (word ++ rest) = (.ok node, rest) := h rest
    obtain ⟨inner, hunary⟩ : ∃ inner, unary room = unaryWith inner (Parser.group room) := by
      cases room with
      | zero => exact ⟨_, unary_zero⟩
      | succ room => exact ⟨_, unary_succ room⟩
    rcases hword : word ++ rest with _ | ⟨token, behind⟩
    · simp [hword, Parser.primary] at hread
    · rw [hword, Parser.primary] at hread
      have hop : ¬ isPrefixOperator token.kind = true := by
        intro hop
        rcases isPrefixOperator_iff.1 hop with hop | hop <;>
          simp [read_primaryWith_cons, hop] at hread
      rw [hunary, read_unaryWith_cons, if_neg hop, hread]

/-- **What is read at a tight rank is so at every looser one.**  The loose rank is tightened one
step at a time. -/
theorem loosen {tight : Rank} (h : ReadAs room word node tight) (loose : Rank)
    (hle : loose.tightness ≤ tight.tightness) : ReadAs room word node loose := by
  rcases Nat.eq_or_lt_of_le hle with heq | hlt
  · exact Rank.eq_of_tightness heq ▸ h
  match loose, hlt with
  | .level level, hlt =>
    exact (h.loosen (operandOf level) (tightness_operandOf level ▸ hlt)).operand
  | .unary, hlt => exact (h.loosen .primary hlt).primary
  | .primary, hlt => exact absurd (Nat.lt_of_lt_of_le hlt tight.tightness_le) (Nat.lt_irrefl _)
termination_by 5 - loose.tightness
decreasing_by
  · have hstep := tightness_operandOf level
    have hbound := tight.tightness_le
    omega
  · decide

end ReadAs

end Parser

/-- **A writing is read back at the rank of its slot**, with as much room as it is deep; by
induction on the writing. -/
theorem WrittenAs.readAs {slot : Slot} {tree : OperatorTree} {depth : Nat} {word : List Token}
    (h : WrittenAs slot tree depth word) {room : Nat} (hroom : depth ≤ room) :
    Parser.ReadAs room word tree.node slot.rank := by
  induction h generalizing room with
  | number h | text h | identifier h =>
    suffices hleaf : Parser.ReadAs room _ _ .primary from hleaf.loosen _ (Rank.tightness_le _)
    intro rest
    rw [List.cons_append, Parser.primary, Parser.read_primaryWith_cons, h]
    rfl
  | signed h _ ih =>
    obtain ⟨room, rfl⟩ : ∃ less, room = less + 1 := ⟨room - 1, by omega⟩
    have hoperand := ih (Nat.le_of_succ_le_succ hroom)
    exact (hoperand.signed h).loosen _ (Slot.tightness_le _)
  | joined h hfree _ _ ihleft ihright =>
    have hleft := ihleft (Nat.le_trans (Nat.le_max_left _ _) hroom)
    have hright := ihright (Nat.le_trans (Nat.le_max_right _ _) hroom)
    exact (hleft.binary h hright).loosen _ (Slot.tightness_le_of_encloses hfree)
  | group hopening _ hclosing ih =>
    obtain ⟨room, rfl⟩ : ∃ less, room = less + 1 := ⟨room - 1, by omega⟩
    have hinner := ih (Nat.le_of_succ_le_succ hroom)
    exact (hinner.group hopening hclosing).loosen _ (Rank.tightness_le _)

namespace Cursor

variable {α : Type} {c : Cursor} {p : Parser α} {rest : List Token}

/-- What is read is replied, and the cursor stands behind it. -/
theorem readAhead_ok {a : α} (h : p.read c.ahead = (.ok a, rest)) (reply : α → Reply) :
    c.readAhead p reply = (reply a, c.leaving rest) := by
  obtain ⟨fewer, hrun⟩ := Parser.run_done h
  rw [readAhead, hrun]

/-- The cursor in front of a word, behind tokens of which none ends the text. -/
def before (front word behind : List Token) : Cursor := ⟨front ++ (word ++ behind), front.length⟩

/-- The cursor behind the word. -/
def beyond (front word behind : List Token) : Cursor :=
  ⟨front ++ (word ++ behind), front.length + word.length⟩

variable {front word back : List Token}

/-- Ahead of a cursor in front of a word are the word and what of the text is behind it. -/
theorem ahead_before (hfront : EndFree front) (hword : EndFree word) :
    (before front word back).ahead = word ++ (TokenList.of back).body := by
  rw [ahead, list, before, body_append hfront, body_append hword]
  exact List.drop_left

theorem leaving_before (hfront : EndFree front) (hword : EndFree word) :
    (before front word back).leaving (TokenList.of back).body = beyond front word back := by
  rw [leaving, list, before, beyond, body_append hfront, body_append hword]
  simp only [List.length_append, mk.injEq, true_and]
  omega

end Cursor

/-- **A word of a depth is read back as a tree** in front of anything but a binary operator, where
there is room for it. -/
structure GroupedAs (tree : OperatorTree) (depth : Nat) (word : List Token) : Prop where
  parser : ∀ room behind, depth ≤ room → Stops joinsOperands behind →
    (Parser.expression room).read (word ++ behind) = (.ok tree.node, behind)
  cursor : depth ≤ nestingLimit → ∀ front behind, EndFree front → Stops joinsOperands behind →
    (Cursor.before front word behind).answer (.piece .expression) =
      (.node tree.node, .beyond front word behind)

/-- **Precedence and associativity.**  Every tree can be written; and however it is written, with
parentheses where they are needed and with any others, it is read back. -/
theorem groupedAs_of_writtenAs (tree : OperatorTree) :
    (∃ least, WrittenAs .whole tree least (tree.written .whole)) ∧
    ∀ {depth : Nat} {word : List Token}, WrittenAs .whole tree depth word →
      GroupedAs tree depth word := by
  refine ⟨tree.writtenAs_written .whole, fun {depth word} h => ?_⟩
  have hparser (room : Nat) (behind : List Token) (hroom : depth ≤ room)
      (hstop : Stops joinsOperands behind) :
      (Parser.expression room).read (word ++ behind) = (.ok tree.node, behind) :=
    (h.readAs hroom).read (hstop.mono fun _ ⟨level, _, hhas⟩ => ⟨level, hhas⟩)
  refine ⟨hparser, fun hdepth front behind hfront hstop => ?_⟩
  have hread := hparser nestingLimit (TokenList.of behind).body hdepth
    fun token hmem => hstop token (head?_body hmem)
  rw [← Cursor.ahead_before hfront h.endFree] at hread
  rw [Cursor.answer, Cursor.Piece.parser_expression, ← Cursor.leaving_before hfront h.endFree]
  exact Cursor.readAhead_ok hread _

/-- The tree of `a - -b * (c - d) < 7`. -/
def mixedTree : OperatorTree :=
  .joined .comparison
    (.joined .term (.identifier ⟨.identifier, "a", ⟨1, 2⟩⟩ rfl) ⟨.operator .minus, "-", ⟨1, 5⟩⟩ rfl
      (.joined .factor
        (.signed ⟨.operator .minus, "-", ⟨1, 7⟩⟩ rfl (.identifier ⟨.identifier, "b", ⟨1, 8⟩⟩ rfl))
        ⟨.operator .times, "*", ⟨1, 10⟩⟩ rfl
        (.joined .term (.identifier ⟨.identifier, "c", ⟨1, 13⟩⟩ rfl)
          ⟨.operator .minus, "-", ⟨1, 15⟩⟩ rfl (.identifier ⟨.identifier, "d", ⟨1, 17⟩⟩ rfl))))
    ⟨.operator .less, "<", ⟨1, 20⟩⟩ rfl (.number ⟨.number, "7", ⟨1, 22⟩⟩ rfl)

/-- The tokens of `(a) - -b * (c - d) < 7`, put together as they are written: one pair of
parentheses is needed and one is not. -/
def mixedWord : List Token :=
  (⟨.mark .leftParen, "(", ⟨1, 1⟩⟩ ::
      ([⟨.identifier, "a", ⟨1, 2⟩⟩] ++ [⟨.mark .rightParen, ")", ⟨1, 3⟩⟩]) ++
    ⟨.operator .minus, "-", ⟨1, 5⟩⟩ ::
      ((⟨.operator .minus, "-", ⟨1, 7⟩⟩ :: [⟨.identifier, "b", ⟨1, 8⟩⟩]) ++
        ⟨.operator .times, "*", ⟨1, 10⟩⟩ ::
          ⟨.mark .leftParen, "(", ⟨1, 12⟩⟩ ::
            (([⟨.identifier, "c", ⟨1, 13⟩⟩] ++
                ⟨.operator .minus, "-", ⟨1, 15⟩⟩ :: [⟨.identifier, "d", ⟨1, 17⟩⟩]) ++
              [⟨.mark .rightParen, ")", ⟨1, 18⟩⟩]))) ++
    ⟨.operator .less, "<", ⟨1, 20⟩⟩ :: [⟨.number, "7", ⟨1, 22⟩⟩]

theorem groupedAs_mixed :
    WrittenAs .whole mixedTree 1 mixedWord ∧ GroupedAs mixedTree 1 mixedWord ∧
    (∃ least, WrittenAs .whole mixedTree least (mixedTree.written .whole)) ∧
    mixedWord.length = 14 ∧ (mixedTree.written .whole).length = 12 := by
  have h : WrittenAs .whole mixedTree 1 mixedWord :=
    .joined rfl rfl (.joined rfl rfl (.group rfl (.identifier rfl) rfl)
      (.joined rfl rfl (.signed rfl (.identifier rfl))
        (.group rfl (.joined rfl rfl (.identifier rfl) (.identifier rfl)) rfl))) (.number rfl)
  obtain ⟨hwritten, hgrouped⟩ := groupedAs_of_writtenAs mixedTree
  exact ⟨h, hgrouped h, hwritten, rfl, rfl⟩

end ScriptFrontend
