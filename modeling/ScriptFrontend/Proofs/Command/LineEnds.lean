import ScriptFrontend.Proofs.Command.Run
import ScriptFrontend.Proofs.Grammar.Texts
import ScriptFrontend.Proofs.Lexeme.LineEnds
import ScriptFrontend.Proofs.Parse.Kinds
import ScriptFrontend.Proofs.Parse.Origin
import ScriptFrontend.Proofs.Parse.Written

/-!
# Proofs/Command/LineEnds — how lines end makes no difference to programs

    text in a file  ──read──▸  unified text  ──tokens──▸  unified tokens  ──parse──▸  unified tree

A source file is read with its line ends unified; a text that is given is taken as it is.  If every
carriage return of the text stands in front of a newline, then the tokens are the same but for the
line ends in them (`tokens_unify`), so they match (`aligned_unified`) and are parsed alike; and of a
tree, only literals that are quoted hold line ends (`strings_of_parse`).
-/

namespace ScriptFrontend

variable {vocabulary : Vocabulary} {text : String}

/-! ## Lexemes -/

/-- The kinds whose lexemes may come into a tree or into an expectation. -/
def Kind.isShown (kind : Kind) : Bool := kind.isNamed || kind.isWord

/-- What may be shown is no comment and not the end. -/
theorem Kind.kept_of_isShown {kind : Kind} (h : kind.isShown = true) :
    kind.isDiscarded = false ∧ kind ≠ .finish := by
  cases kind <;> simp_all [isShown, isNamed, isWord, isDiscarded]

/-- **A lexeme that may be shown** holds no carriage return, or is a quoted text. -/
theorem not_return_or_quoted (hpaired : Paired text.toList) {token : Token}
    (hmem : token ∈ tokens vocabulary text) (hshown : token.kind.isShown = true) :
    '\r' ∉ token.lexeme.toList ∨ token.kind = .text ∧
      ∃ body, Paired ('"' :: (body ++ ['"'])) ∧
        token.lexeme = String.ofList ('"' :: (body ++ ['"'])) := by
  obtain ⟨hkept, hfinish⟩ := Kind.kept_of_isShown hshown
  obtain ⟨front, lexeme, after, htext, hrule, hlexeme⟩ := exists_rule hmem hfinish
  have hlexemePaired := hrule.paired hkept (htext ▸ hpaired).behind
  rw [hlexeme, String.toList_ofList]
  rcases hrule.not_return_or_roomy with hplain | hroomy
  · exact .inl hplain
  generalize token.kind = kind at hshown hroomy
  generalize lexeme ++ after = rest at hroomy
  cases hroomy with
  | text => exact .inr ⟨rfl, _, hlexemePaired, rfl⟩
  | openText | lineComment | blockComment | openComment =>
    simp [Kind.isShown, Kind.isNamed, Kind.isWord] at hshown

/-- What comes into a tree of a token is in its lexeme. -/
theorem Token.mem_of_mem_content {token : Token} {c : Char} (h : c ∈ token.content.toList) :
    c ∈ token.lexeme.toList := by
  unfold content at h
  split at h
  · rw [unwrapped, String.toList_ofList] at h
    exact List.mem_of_mem_tail (List.mem_of_mem_dropLast h)
  · exact h

/-- **Tokens match the tokens with the line ends in them unified.** -/
theorem matches_unified (hpaired : Paired text.toList) {token : Token}
    (hmem : token ∈ tokens vocabulary text) :
    token.Matches unifyLineEnds Eq id token.unified where
  kind := rfl
  place := rfl
  word hword := by
    have hshown : token.kind.isShown = true := by simp [Kind.isShown, hword]
    rcases not_return_or_quoted hpaired hmem hshown with hplain | ⟨hkind, -⟩
    · exact (unifyLineEnds_eq_self hplain).symm
    · simp [hkind, Kind.isWord] at hword
  content hnamed := by
    have hshown : token.kind.isShown = true := by simp [Kind.isShown, hnamed]
    rcases not_return_or_quoted hpaired hmem hshown with hplain | ⟨hkind, body, hquoted, hlexeme⟩
    · have hcontent := unifyLineEnds_eq_self fun hreturn =>
        hplain (Token.mem_of_mem_content hreturn)
      rw [hcontent, Token.unified, unifyLineEnds_eq_self hplain]
    · have hinner : Paired (body ++ ['"']) := hquoted.2
      have hbody : Paired body := hinner.before (hinner.getLast?_ne (by decide))
      simp only [Token.content, Token.unified, hkind, hlexeme, if_true]
      rw [unifyLineEnds_ofList hquoted]
      simp [unwrapped, unifyLineEnds_ofList hbody]

theorem aligned_unified (vocabulary : Vocabulary) (hpaired : Paired text.toList) :
    Aligned unifyLineEnds Eq id (tokens vocabulary text)
      (tokens vocabulary (unifyLineEnds text)) := by
  rw [tokens_unify hpaired]
  exact List.forall₂_map_right_iff.2 (List.forall₂_same.2 fun _ => matches_unified hpaired)

/-! ## Programs -/

/-- **Results that differ in line ends only**: a tree, and the tree with the line ends in its texts
unified, of which only quoted literals hold any; or rejections with the same expectation at tokens
that differ in line ends only. -/
inductive SameButLineEnds : Except Rejection Node → Except Rejection Node → Prop where
  | accepted {tree : Node} :
    (∀ n ∈ tree.walk, (∀ value ∈ n.strings, unifyLineEnds value = value) ∨ n.IsQuoted) →
    SameButLineEnds (.ok tree) (.ok (tree.relabel unifyLineEnds id))
  | rejected {rejection other : Rejection} :
    other.expected = rejection.expected →
    other.token = rejection.token.unified →
    SameButLineEnds (.error rejection) (.error other)

/-- **Only literals that are quoted hold line ends.** -/
theorem strings_of_parse (hpaired : Paired text.toList) {tree n : Node}
    (h : parseText vocabulary text = .ok tree) (hn : n ∈ tree.walk) :
    (∀ value ∈ n.strings, unifyLineEnds value = value) ∨ n.IsQuoted := by
  by_cases hform : n.form = .program
  · refine .inl ?_
    cases n with
    | program => simp [Node.strings, Node.fields]
    | _ => simp [Node.form] at hform
  · obtain ⟨origin, horigin⟩ := exists_comesFrom h (List.mem_filter.2 ⟨hn, by simpa using hform⟩)
    refine horigin.spelled.strings_or_isQuoted (fun token hmem hnamed htext => ?_) (by decide)
    have hmem : token ∈ tokens vocabulary text := List.mem_of_mem_drop (List.mem_of_mem_take hmem)
    exact unifyLineEnds_eq_self
      ((not_return_or_quoted hpaired hmem (by simp [Kind.isShown, hnamed])).resolve_right
        fun hquoted => htext hquoted.1)

/-- **A paired text is parsed as with its line ends unified**, but for line ends. -/
theorem sameButLineEnds_parseText (vocabulary : Vocabulary) (hpaired : Paired text.toList) :
    SameButLineEnds (parseText vocabulary text) (parseText vocabulary (unifyLineEnds text)) := by
  rcases parseProgram_aligned (aligned_unified vocabulary hpaired) with
    ⟨body, hbody, hbody'⟩ | ⟨rejection, other, hrejection, hother, hexpected, hindex⟩
  · have hrelabel : programOf (body.map (Node.relabel unifyLineEnds id)) =
        (programOf body).relabel unifyLineEnds id := by
      simp [programOf, Node.relabel]
    rw [parseText, parseText, hbody, hbody', hrelabel]
    exact .accepted fun n hn => strings_of_parse hpaired hbody hn
  · have htoken := getElem?_stopIndex hother (exists_finish_mem vocabulary (unifyLineEnds text))
    rw [← hindex, tokens_unify hpaired, List.getElem?_map,
      getElem?_stopIndex hrejection (exists_finish_mem vocabulary text)] at htoken
    rw [parseText, parseText, hrejection, hother]
    exact .rejected hexpected.eq.symm (Option.some.inj htoken).symm

/-! ## Runs -/

/-- **A source file is carried out as if its text were given** with the line ends unified. -/
theorem Task.run_file {task : Task} {folder : Folder} (hfile : task.isText = false)
    (hname : endsWith task.source sourceSuffix = true)
    (hread : folder.read task.source = .ok text.toUTF8.toList) :
    task.run folder =
      ({ task with source := unifyLineEnds text, isText := true } : Task).run folder := by
  obtain ⟨front, hfront⟩ := endsWith_iff.1 hname
  have hsource : task.sourceText folder = .ok (unifyLineEnds text) :=
    sourceText_eq_ok_iff.2 (.file hfile hfront hread)
  rw [run, run, hsource]
  rfl

/-- **How lines end makes no difference**, if every carriage return of a text stands in front of a
newline.  Under any vocabulary, unifying the line ends of the text unifies those in the lexemes of
its tokens, and changes neither how many there are nor their kinds and places; it is parsed as
before, but for line ends in quoted literals; and a source file that holds the text is carried out
as the text with its line ends unified. -/
theorem lineEnds_make_no_difference {text : String} (hpaired : Paired text.toList)
    (vocabulary : Vocabulary) :
    tokens vocabulary (unifyLineEnds text) = (tokens vocabulary text).map Token.unified ∧
    SameButLineEnds (parseText vocabulary text) (parseText vocabulary (unifyLineEnds text)) ∧
    ∀ (task : Task) (folder : Folder), task.isText = false →
      Task.endsWith task.source Task.sourceSuffix = true →
      folder.read task.source = .ok text.toUTF8.toList →
      task.run folder =
        ({ task with source := unifyLineEnds text, isText := true } : Task).run folder :=
  ⟨tokens_unify hpaired, sameButLineEnds_parseText vocabulary hpaired,
    fun _ _ => Task.run_file⟩

/-- A line end in a quoted text, and one behind a comment. -/
def twoLines : String := "f = \"a\r\nb\"; # c\r\n"

/-- A folder with a file that holds them. -/
def twoLinesFolder : Folder := .ofFiles [("f.ciams", twoLines.toUTF8.toList)]

theorem lineEnds_make_no_difference_twoLines :
    unifyLineEnds twoLines = "f = \"a\nb\"; # c\n" ∧
    tokens .standard (unifyLineEnds twoLines) = [⟨.identifier, "f", ⟨1, 1⟩⟩,
      ⟨.operator .assign, "=", ⟨1, 3⟩⟩, ⟨.text, "\"a\nb\"", ⟨1, 5⟩⟩,
      ⟨.mark .semicolon, ";", ⟨2, 3⟩⟩, .finish ⟨3, 1⟩] ∧
    ({ source := "f.ciams" } : Task).run twoLinesFolder =
      ({ source := unifyLineEnds twoLines, isText := true } : Task).run twoLinesFolder := by
  have hpaired : Paired twoLines.toList := by simp [twoLines, Paired]
  have hread : twoLinesFolder.read "f.ciams" = .ok twoLines.toUTF8.toList :=
    Folder.read_ofFiles (by decide +kernel) (by decide +kernel) (by decide +kernel)
      (by decide +kernel) _
  obtain ⟨htokens, -, hrun⟩ := lineEnds_make_no_difference hpaired .standard
  refine ⟨by cbv, ?_, hrun { source := "f.ciams" } twoLinesFolder rfl (by decide) hread⟩
  rw [htokens]
  cbv

end ScriptFrontend
