import ScriptFrontend.Proofs.Parse.Bodies
import ScriptFrontend.Proofs.Parse.Origin

/-!
# Proofs/Parse/Sites — where the macro regions of a program stand

A macro region takes a list of tokens apart: what is in front of it, its bar, name and colon, its
body, the bar that closes it, and what is behind (`MacroSite`).  Its first bar stands outside of
regions, which is found by going through the kinds in front of it (`Region.through`), and no region
opens inside another one (`MacroSite.start_eq`).

    front   | name : body |   back
    └ outside ┘           └ outside again

Whatever the grammar derives ends outside of regions if it starts there, and the regions that open
in its word are those of its trees, one for each (`compositional_opens`).  So the macro regions of a
list of tokens that is a program are, one by one, the macro nodes of its tree, at whatever depth
these are (`exists_sites`).
-/

namespace ScriptFrontend

open Grammar

/-! ## Going through tokens -/

namespace Region

@[simp] theorem next_outside_pipe : outside.next (.operator .pipe) = name := rfl

@[simp] theorem next_name (kind : Kind) : name.next kind = colon := rfl

@[simp] theorem next_colon (kind : Kind) : colon.next kind = body := rfl

/-- Where the token behind some tokens stands. -/
def through (region : Region) (tokens : List Token) : Region :=
  tokens.foldl (fun region token => region.next token.kind) region

@[simp] theorem through_nil (region : Region) : region.through [] = region := rfl

@[simp] theorem through_cons (region : Region) (token : Token) (tokens : List Token) :
    region.through (token :: tokens) = (region.next token.kind).through tokens := rfl

@[simp] theorem through_append (region : Region) (front back : List Token) :
    region.through (front ++ back) = (region.through front).through back := List.foldl_append

/-- Without bars one stays outside. -/
theorem through_outside {word : List Token} (h : BarFree word) :
    outside.through word = outside := by
  induction word with
  | nil => rfl
  | cons token word ih =>
    obtain ⟨htoken, hword⟩ := barFree_cons.1 h
    rw [through_cons, next_outside htoken, ih hword]

/-- Without bars one stays in a body. -/
theorem through_body {word : List Token} (h : BarFree word) : body.through word = body := by
  induction word with
  | nil => rfl
  | cons token word ih =>
    obtain ⟨htoken, hword⟩ := barFree_cons.1 h
    have hnext : body.next token.kind = body := if_neg htoken
    rw [through_cons, hnext, ih hword]

end Region

/-! ## Sites -/

/-- **A macro region in a list of tokens**, which it takes apart. -/
@[ext] structure MacroSite where
  front : List Token
  bar : Token
  name : Token
  colon : Token
  body : List Token
  closing : Token
  back : List Token
  /-- It is in no other region. -/
  outside : Region.outside.through front = .outside
  bar_kind : bar.kind = .operator .pipe
  name_kind : name.kind = .identifier
  colon_kind : colon.kind = .mark .colon
  body_barFree : BarFree body
  closing_kind : closing.kind = .operator .pipe

namespace MacroSite

/-- The region, with any body. -/
def region (s : MacroSite) (body : List Token) : List Token :=
  s.bar :: s.name :: s.colon :: (body ++ [s.closing])

/-- The tokens through the region, with any body. -/
def passed (s : MacroSite) (body : List Token) : List Token := s.front ++ s.region body

/-- **The list with any body in the region.** -/
def tokensWith (s : MacroSite) (body : List Token) : List Token := s.passed body ++ s.back

/-- The list that the region is in. -/
def tokens (s : MacroSite) : List Token := s.tokensWith s.body

/-- The index of the bar that opens the region. -/
def start (s : MacroSite) : Nat := s.front.length

/-- The index behind the bar that closes the region. -/
def stop (s : MacroSite) : Nat := (s.passed s.body).length

/-- The node of the region. -/
def node (s : MacroSite) : Node := .macroRegion s.name.lexeme s.bar.place

variable {s t : MacroSite}

theorem stop_eq (s : MacroSite) : s.stop = s.start + (s.region s.body).length :=
  List.length_append

theorem start_lt_stop (s : MacroSite) : s.start < s.stop := by
  rw [stop_eq, region, List.length_cons]
  omega

/-- Lists with the same first bar are parted by it in one way. -/
theorem eq_of_barFree {body body' back back' : List Token} {bar bar' : Token}
    (hbody : BarFree body) (hbody' : BarFree body') (hbar : bar.kind = .operator .pipe)
    (hbar' : bar'.kind = .operator .pipe) (h : body ++ bar :: back = body' ++ bar' :: back') :
    body = body' ∧ bar = bar' ∧ back = back' := by
  have htake {body back : List Token} {bar : Token} (hbody : BarFree body)
      (hbar : bar.kind = .operator .pipe) :
      (body ++ bar :: back).takeWhile (·.kind != .operator .pipe) = body := by
    have hpass : ∀ token ∈ body, (token.kind != .operator .pipe) = true :=
      fun token hmem => bne_iff_ne.2 (hbody token hmem)
    rw [List.takeWhile_append_of_pos hpass, List.takeWhile_cons, hbar]
    simp
  obtain rfl : body = body' := by rw [← htake hbody hbar, h, htake hbody' hbar']
  exact ⟨rfl, List.cons.inj (List.append_cancel_left h)⟩

/-- **A region is told by its list and its bar.** -/
theorem eq_of_start (htokens : s.tokens = t.tokens) (hstart : s.start = t.start) : s = t := by
  simp only [tokens, tokensWith, passed, region, List.append_assoc, List.cons_append] at htokens
  obtain ⟨hfront, hregion⟩ := List.append_inj htokens hstart
  simp only [List.cons.injEq] at hregion
  obtain ⟨hbar, hname, hcolon, hrest⟩ := hregion
  obtain ⟨hbody, hclosing, hback⟩ :=
    eq_of_barFree s.body_barFree t.body_barFree s.closing_kind t.closing_kind hrest
  exact MacroSite.ext hfront hbar hname hcolon hbody hclosing hback

/-- Between its bars one is not outside. -/
theorem through_take_region (s : MacroSite) {k : Nat} (hpos : 0 < k)
    (hk : k < (s.region s.body).length) :
    Region.outside.through ((s.region s.body).take k) ≠ .outside := by
  match k with
  | 1 => simp [region, s.bar_kind]
  | 2 => simp [region, s.bar_kind]
  | m + 3 =>
    have hm : m ≤ s.body.length := by
      simp only [region, List.length_cons, List.length_append, List.length_nil] at hk
      omega
    have hbody : BarFree (s.body.take m) :=
      fun token hmem => s.body_barFree token (List.mem_of_mem_take hmem)
    simp [region, s.bar_kind, List.take_append_of_le_length hm, Region.through_body hbody]

/-- **No region opens inside another one.** -/
theorem start_eq (htokens : t.tokens = s.tokens) (hle : s.start ≤ t.start)
    (hlt : t.start < s.stop) : t.start = s.start := by
  rw [stop_eq] at hlt
  have hless : t.start - s.start < (s.region s.body).length := by omega
  have hfront : t.front = s.front ++ (s.region s.body).take (t.start - s.start) := by
    have htake : t.front = t.tokens.take t.start := by
      rw [tokens, tokensWith, passed, List.append_assoc]
      exact List.take_left.symm
    rw [htake, htokens, tokens, tokensWith, passed, List.append_assoc, List.take_append,
      List.take_of_length_le hle]
    exact congrArg (s.front ++ ·) (List.take_append_of_le_length (Nat.le_of_lt hless))
  by_contra hne
  have hinside := s.through_take_region (Nat.pos_of_ne_zero fun hzero => hne (by omega)) hless
  have houtside := t.outside
  rw [hfront, Region.through_append, s.outside] at houtside
  exact hinside houtside

/-- Behind its second bar one is outside again. -/
theorem through_region (s : MacroSite) {body : List Token} (h : BarFree body) :
    Region.outside.through (s.region body) = .outside := by
  simp [region, s.bar_kind, Region.through_body h, s.closing_kind]

end MacroSite

/-! ## The regions that open in a word -/

/-- **The macro regions of a list that open between two indices.**  They are closed there, too. -/
structure OpenBetween (tokens : List Token) (first last : Nat) (sites : List MacroSite) : Prop where
  nodup : sites.Nodup
  mem_iff : ∀ s, s ∈ sites ↔ s.tokens = tokens ∧ first ≤ s.start ∧ s.start < last
  stop_le : ∀ s ∈ sites, s.stop ≤ last

section OpenBetween

variable {tokens : List Token} {first mid last : Nat} {sites others : List MacroSite}

theorem OpenBetween.perm (h : OpenBetween tokens first last sites) (hperm : sites.Perm others) :
    OpenBetween tokens first last others where
  nodup := hperm.nodup_iff.1 h.nodup
  mem_iff s := hperm.mem_iff.symm.trans (h.mem_iff s)
  stop_le s hs := h.stop_le s (hperm.mem_iff.2 hs)

/-- Side by side, the regions are those of both. -/
theorem OpenBetween.append (h : OpenBetween tokens first mid sites)
    (h' : OpenBetween tokens mid last others) (hle : first ≤ mid) (hle' : mid ≤ last) :
    OpenBetween tokens first last (sites ++ others) where
  nodup := by
    refine List.nodup_append.2 ⟨h.nodup, h'.nodup, ?_⟩
    rintro s hs _ hs' rfl
    have hbound := ((h.mem_iff s).1 hs).2
    have hbound' := ((h'.mem_iff s).1 hs').2
    omega
  mem_iff s := by
    rw [List.mem_append, h.mem_iff, h'.mem_iff]
    constructor
    · rintro (⟨htokens, hbound⟩ | ⟨htokens, hbound⟩)
      · exact ⟨htokens, by omega⟩
      · exact ⟨htokens, by omega⟩
    · rintro ⟨htokens, hbound⟩
      rcases Nat.lt_or_ge s.start mid with hlt | hge
      · exact .inl ⟨htokens, hbound.1, hlt⟩
      · exact .inr ⟨htokens, hge, hbound.2⟩
  stop_le := List.forall_mem_append.2 ⟨fun s hs => Nat.le_trans (h.stop_le s hs) hle', h'.stop_le⟩

end OpenBetween

/-- The macro nodes of some trees, in the order of the walk. -/
def macroNodes (nodes : List Node) : List Node :=
  (nodes.flatMap Node.preorder).filter (·.form == .macroRegion)

theorem macroNodes_append (nodes others : List Node) :
    macroNodes (nodes ++ others) = macroNodes nodes ++ macroNodes others := by
  rw [macroNodes, List.flatMap_append, List.filter_append]
  rfl

/-- The macro nodes of any other node are those of its children. -/
theorem macroNodes_node {n : Node} (h : n.form ≠ .macroRegion) :
    macroNodes [n] = macroNodes n.children := by
  rw [macroNodes, List.flatMap_singleton, Node.preorder_eq,
    List.filter_cons_of_neg (by simpa using h)]
  rfl

/-- **A word opens the macro regions of some trees**: from outside to outside, and in every list
around it the regions that open in the word are those of the trees. -/
structure Opens (word : List Token) (nodes : List Node) : Prop where
  closed : Region.outside.through word = .outside
  sites : ∀ front back, Region.outside.through front = .outside →
    ∃ sites, OpenBetween (front ++ (word ++ back)) front.length (front.length + word.length) sites ∧
      sites.map MacroSite.node = macroNodes nodes

namespace Opens

variable {word left right : List Token} {nodes others : List Node}

theorem congr (h : Opens word nodes) (hnodes : macroNodes nodes = macroNodes others) :
    Opens word others where
  closed := h.closed
  sites := hnodes ▸ h.sites

/-- Nothing opens where no bar is. -/
theorem plain (h : BarFree word) : Opens word [] where
  closed := Region.through_outside h
  sites front back _ := by
    refine ⟨[], ⟨List.nodup_nil, fun s => ⟨nofun, ?_⟩, by simp⟩, rfl⟩
    rintro ⟨htokens, hle, hlt⟩
    -- the bar of such a region would be a token of the word
    have hbar : s.tokens[s.start]? = some s.bar := by
      simp [MacroSite.tokens, MacroSite.tokensWith, MacroSite.passed, MacroSite.region,
        MacroSite.start]
    rw [htokens, List.getElem?_append_right hle, List.getElem?_append_left (by omega)] at hbar
    exact absurd s.bar_kind (h s.bar (List.mem_of_getElem? hbar))

/-- The regions of words side by side, in either order. -/
theorem sites_append (hleft : Opens left nodes) (hright : Opens right others)
    {front : List Token} (back : List Token) (hfront : Region.outside.through front = .outside) :
    ∃ sites more, sites.map MacroSite.node = macroNodes nodes ∧
      more.map MacroSite.node = macroNodes others ∧
      OpenBetween (front ++ (left ++ right ++ back)) front.length
        (front.length + (left ++ right).length) (sites ++ more) := by
  obtain ⟨sites, hsites, hnodes⟩ := hleft.sites front (right ++ back) hfront
  obtain ⟨more, hmore, hothers⟩ := hright.sites (front ++ left) back
    (by rw [Region.through_append, hfront, hleft.closed])
  simp only [List.append_assoc, List.length_append, ← Nat.add_assoc] at hsites hmore ⊢
  exact ⟨sites, more, hnodes, hothers,
    hsites.append hmore (Nat.le_add_right _ _) (Nat.le_add_right _ _)⟩

theorem closed_append (hleft : Opens left nodes) (hright : Opens right others) :
    Region.outside.through (left ++ right) = .outside := by
  rw [Region.through_append, hleft.closed, hright.closed]

theorem append (hleft : Opens left nodes) (hright : Opens right others) :
    Opens (left ++ right) (nodes ++ others) where
  closed := hleft.closed_append hright
  sites front back hfront := by
    obtain ⟨sites, more, hnodes, hothers, hopen⟩ := hleft.sites_append hright back hfront
    exact ⟨sites ++ more, hopen, by rw [List.map_append, hnodes, hothers, macroNodes_append]⟩

theorem append_swap (hleft : Opens left nodes) (hright : Opens right others) :
    Opens (left ++ right) (others ++ nodes) where
  closed := hleft.closed_append hright
  sites front back hfront := by
    obtain ⟨sites, more, hnodes, hothers, hopen⟩ := hleft.sites_append hright back hfront
    exact ⟨more ++ sites, hopen.perm List.perm_append_comm,
      by rw [List.map_append, hnodes, hothers, macroNodes_append]⟩

/-- **A macro region opens where it stands**, and nothing opens in it. -/
theorem macroRegion {n : Node} (h : Statement .macroRegion word n) : Opens word [n] := by
  cases h with
  | @macroRegion head name colon closing skipped hhead hname hcolon hskipped hclosing =>
  have hsite (front back : List Token) (hfront : Region.outside.through front = .outside) :
      ∃ s : MacroSite, s.front = front ∧
        s.region s.body = head :: name :: colon :: (skipped ++ [closing]) ∧ s.back = back ∧
        s.node = .macroRegion name.lexeme head.place :=
    ⟨⟨front, head, name, colon, skipped, closing, back, hfront, hhead, hname, hcolon, hskipped,
      hclosing⟩, rfl, rfl, rfl, rfl⟩
  constructor
  · obtain ⟨s, -, hregion, -⟩ := hsite [] [] rfl
    rw [← hregion]
    exact s.through_region s.body_barFree
  · intro front back hfront
    obtain ⟨s, rfl, hregion, rfl, hnode⟩ := hsite front back hfront
    have htokens : s.tokens = s.front ++ (s.region s.body ++ s.back) := List.append_assoc ..
    rw [← hregion, ← htokens]
    refine ⟨[s], ⟨List.nodup_singleton s, fun t => ?_, ?_⟩, ?_⟩
    · rw [List.mem_singleton]
      constructor
      · rintro rfl
        exact ⟨rfl, Nat.le_refl _, t.stop_eq ▸ t.start_lt_stop⟩
      · rintro ⟨htokens, hle, hlt⟩
        exact MacroSite.eq_of_start htokens
          (MacroSite.start_eq htokens hle (s.stop_eq.symm ▸ hlt))
    · exact List.forall_mem_singleton.2 (Nat.le_of_eq s.stop_eq)
    · rw [List.map_singleton, hnode, macroNodes, List.flatMap_singleton, Node.preorder_eq]
      rfl

end Opens

/-- **Opening the regions of its trees is kept by productions.** -/
theorem compositional_opens : Compositional Opens where
  plain := .plain
  append hleft hright := hleft.append hright
  append_swap hleft hright := hleft.append_swap hright
  headed {head word n} _ hkind _ hbar hchildren := by
    have hform : n.form ≠ .macroRegion := fun hform => by
      rw [hform] at hkind
      exact hbar (List.mem_singleton.1 hkind)
    have hhead : BarFree [head] := by simpa using hbar
    exact ((Opens.plain hhead).append hchildren).congr (macroNodes_node hform).symm
  binary {op left right l r} _ hkind hleft hright := by
    have hbar : op.kind ≠ .operator .pipe := fun hbar => by simp [hbar, Form.introducers] at hkind
    have hop : BarFree [op] := by simpa using hbar
    refine (hleft.append ((Opens.plain hop).append hright)).congr ?_
    rw [macroNodes_node (by simp [Node.form])]
    rfl
  macroRegion := .macroRegion

/-- **The macro regions of a program are the macro nodes of its tree**, one by one, in the order of
the walk. -/
theorem exists_sites {tokens : List Token} {tree : Node} (h : parseProgram tokens = .ok tree) :
    ∃ sites, OpenBetween tokens 0 (TokenList.of tokens).body.length sites ∧
      sites.map MacroSite.node = tree.walk.filter (·.form == .macroRegion) := by
  obtain ⟨nodes, hnodes, rfl⟩ := exists_statements_of_parse h
  obtain ⟨rest, hrest⟩ : (TokenList.of tokens).body <+: tokens := List.takeWhile_prefix _
  obtain ⟨sites, hopen, hmap⟩ := (compositional_opens.statements hnodes).sites [] rest rfl
  rw [List.nil_append, hrest, List.length_nil, Nat.zero_add] at hopen
  have hchildren : (programOf nodes).children = nodes := List.append_nil nodes
  refine ⟨sites, hopen, ?_⟩
  rw [hmap, Node.walk_eq, hchildren, List.filter_cons_of_neg (by simp [programOf, Node.form])]
  rfl

end ScriptFrontend
