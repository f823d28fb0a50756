import ScriptFrontend.Command.Folder

/-!
# Proofs/Command/Folder — what a written file changes

A path **opens** if a file without bytes can be written there (`Folder.Opens`).  Then any bytes can
be written (`opens_iff`), and otherwise none, for one reason (`write_eq_error`).  What is written is
what is read at the same path, and no other file is changed (`read_of_write`, `bytes?_of_write`).

The folders on the way to a file stay folders when there are more (`Wider`), so the way that was
taken to write a file can be taken again to read it (`walk_wider`).
-/

namespace ScriptFrontend.Folder

variable {folder after larger : Folder} {path name : String} {bytes : List UInt8}
  {names next list : List String}

/-! ## One more file -/

theorem lookup_cons_file (file : List String × List UInt8) (rest : List (List String × List UInt8))
    (other : List String) :
    (file :: rest).lookup other = if other = file.1 then some file.2 else rest.lookup other := by
  rw [List.lookup_cons]
  by_cases hother : other = file.1
  · rw [if_pos hother, beq_iff_eq.2 hother]
  · rw [if_neg hother, beq_eq_false_iff_ne.2 hother]

/-- The bytes of the files, one of them replaced. -/
theorem lookup_replaced (files : List (List String × List UInt8)) (other : List String) :
    (files.map fun file => if file.1 = names then (names, bytes) else file).lookup other =
      (files.lookup other).map fun old => if other = names then bytes else old := by
  induction files with
  | nil => rfl
  | cons file rest ih =>
    have hnames : (if file.1 = names then (names, bytes) else file).1 = file.1 := by
      split
      next hfile => exact hfile.symm
      next => rfl
    rw [List.map_cons, lookup_cons_file, lookup_cons_file, ih, hnames]
    split
    next hother =>
      rw [Option.map_some, hother]
      split <;> rfl
    next => rfl

/-- **The bytes of the files after one is written.** -/
theorem bytes?_put (other : List String) :
    (folder.put names bytes).bytes? other =
      if other = names then some bytes else folder.bytes? other := by
  unfold put bytes?
  dsimp only
  split
  next hthere =>
    obtain ⟨old, hold⟩ := Option.isSome_iff_exists.1 hthere
    rw [lookup_replaced]
    split
    next hother => rw [hother, hold, Option.map_some]
    next => exact Option.map_id_fun' ▸ rfl
  next hnew =>
    rw [Option.not_isSome_iff_eq_none] at hnew
    rw [List.lookup_append, lookup_cons_file, List.lookup_nil]
    split
    next hother => rw [hother, hnew, Option.none_or]
    next => rw [Option.or_none]

/-- The names of the files after one is written. -/
theorem any_put (test : List String → Bool) :
    ((folder.put names bytes).files.any fun file => test file.1) =
      ((folder.files.any fun file => test file.1) || test names) := by
  unfold put
  dsimp only
  split
  next hthere =>
    obtain ⟨file, hfile, hnames⟩ := List.lookup_isSome_iff.1 hthere
    have hkept : ∀ file : List String × List UInt8,
        test (if file.1 = names then (names, bytes) else file).1 = test file.1 := by
      intro file
      split
      next hfile => rw [hfile]
      next => rfl
    have hold : test names = true → (folder.files.any fun file => test file.1) = true := by
      intro htest
      exact List.any_eq_true.2 ⟨file, hfile, by rwa [← beq_iff_eq.1 hnames]⟩
    rw [List.any_map, show ((fun file => test file.1) ∘ fun file : List String × List UInt8 =>
      if file.1 = names then (names, bytes) else file) = fun file => test file.1 from funext hkept]
    cases htest : test names
    · rw [Bool.or_false]
    · rw [hold htest]
      rfl
  next => rw [List.any_append, List.any_cons, List.any_nil, Bool.or_false]

/-- The folders after a file is written: those that were there, and those on the way to it. -/
theorem isFolder_put (other : List String) :
    (folder.put names bytes).isFolder other =
      (folder.isFolder other || (other.isPrefixOf names && other != names)) := by
  have hfolders : (folder.put names bytes).folders = folder.folders := rfl
  rw [isFolder, isFolder, any_put fun file => other.isPrefixOf file && other != file, hfolders,
    ← Bool.or_assoc]

/-! ## Following a path -/

/-- A folder in which there are more folders. -/
def Wider (folder larger : Folder) : Prop :=
  ∀ names, folder.isFolder names = true → larger.isFolder names = true

theorem wider_put : Wider folder (folder.put names bytes) := by
  intro other hother
  rw [isFolder_put, hother]
  rfl

theorem enter_wider (hwider : Wider folder larger) (h : folder.enter names name = .ok next) :
    larger.enter names name = .ok next ∧ next = follow names name := by
  unfold enter at h ⊢
  by_cases hstep : isStep name
  · rw [if_pos hstep] at h ⊢
    exact ⟨h, (Except.ok.inj h).symm⟩
  rw [if_neg hstep] at h ⊢
  by_cases hlong : name.utf8ByteSize > longestName
  · rw [if_pos hlong] at h
    cases h
  rw [if_neg hlong] at h ⊢
  by_cases hfolder : folder.isFolder (names ++ [name])
  · rw [if_pos hfolder] at h
    rw [if_pos (hwider _ hfolder)]
    refine ⟨h, (Except.ok.inj h).symm.trans ?_⟩
    simp only [isStep, Bool.or_eq_true, beq_iff_eq, not_or] at hstep
    rw [follow, if_neg (not_or.2 hstep.1), if_neg hstep.2]
  · rw [if_neg hfolder] at h
    split at h <;> cases h

/-- **A way through folders leads where the names say**, and there are no fewer ways where there are
more folders. -/
theorem walk_wider (hwider : Wider folder larger) (h : list.foldlM folder.enter names = .ok next) :
    list.foldlM larger.enter names = .ok next ∧ next = list.foldl follow names := by
  induction list generalizing names with
  | nil => exact ⟨h, (Except.ok.inj h).symm⟩
  | cons name rest ih =>
    rw [List.foldlM_cons] at h ⊢
    rcases henter : folder.enter names name with fault | entered
    · rw [henter] at h
      cases h
    · rw [henter] at h
      obtain ⟨hlarger, hnames⟩ := enter_wider hwider henter
      rw [hlarger, List.foldl_cons, ← hnames]
      exact ih h

/-! ## Writing -/

/-- **A file can be written at a path.** -/
def Opens (folder : Folder) (path : String) : Prop := ∃ after, folder.write path [] = .ok after

/-- A path leads to a file that can be written: the names but the last lead through folders, and
the last one leads to no folder. -/
structure Leads (folder : Folder) (path : String) (names : List String) (last : String) : Prop where
  sound : refused? path = none
  way : (startOf path).2.dropLast.foldlM folder.enter (startOf path).1 = .ok names
  atEnd : (startOf path).2.getLastD "" = last
  notStep : isStep last = false
  notLong : ¬ last.utf8ByteSize > longestName
  notFolder : folder.isFolder (names ++ [last]) = false

/-- The names of a path that does not end in a step. -/
theorem withoutEndingSlashes_eq {own : List String} (h : isStep (own.getLastD "") = false) :
    withoutEndingSlashes own = own := by
  rcases List.eq_nil_or_concat own with rfl | ⟨front, last, rfl⟩
  · rfl
  · rw [List.concat_eq_append, List.getLastD_eq_getLast?, List.getLast?_concat,
      Option.getD_some] at h
    have hlast : (last == "") = false := by
      simp only [isStep, Bool.or_eq_false_iff] at h
      exact h.1.1
    rw [List.concat_eq_append, withoutEndingSlashes, List.reverse_concat,
      List.dropWhile_cons_of_neg (by rw [hlast]; nofun), List.reverse_cons, List.reverse_reverse]

theorem withoutEndingSlashes_of_length {own : List String}
    (h : own.length ≤ (withoutEndingSlashes own).length) : withoutEndingSlashes own = own := by
  have hsuffix := List.dropWhile_suffix (l := own.reverse) (· == "")
  have hlength : (own.reverse.dropWhile (· == "")).length = own.reverse.length := by
    refine Nat.le_antisymm hsuffix.length_le ?_
    rw [withoutEndingSlashes, List.length_reverse] at h
    rwa [List.length_reverse]
  rw [withoutEndingSlashes, hsuffix.eq_of_length hlength, List.reverse_reverse]

/-- **A path is written** exactly if it leads to a file that can be. -/
theorem write_eq_ok_iff :
    folder.write path bytes = .ok after ↔
      ∃ names last, folder.Leads path names last ∧ after = folder.put (names ++ [last]) bytes := by
  constructor
  · intro h
    unfold write at h
    split at h
    · cases h
    next hsound =>
    dsimp only at h
    split at h
    · cases h
    next names hway =>
    split at h
    · cases h
    next hlength =>
    have hown : withoutEndingSlashes (startOf path).2 = (startOf path).2 :=
      withoutEndingSlashes_of_length (Nat.le_of_not_lt hlength)
    rw [hown] at h hway
    unfold writeAt at h
    split at h
    · cases h
    next hstep =>
    split at h
    · cases h
    next hlong =>
    split at h
    · cases h
    next hfolder =>
    exact ⟨names, _, ⟨hsound, hway, rfl, by simpa using hstep, hlong, by simpa using hfolder⟩,
      (Except.ok.inj h).symm⟩
  · rintro ⟨names, last, hleads, rfl⟩
    have hown : withoutEndingSlashes (startOf path).2 = (startOf path).2 :=
      withoutEndingSlashes_eq (by rw [hleads.atEnd, hleads.notStep])
    unfold write
    rw [hleads.sound]
    dsimp only
    rw [hown, hleads.way]
    dsimp only
    rw [if_neg (Nat.lt_irrefl _), hleads.atEnd, writeAt, hleads.notStep, if_neg (by nofun),
      if_neg hleads.notLong, hleads.notFolder, if_neg (by nofun)]

/-- Any bytes can be written where some can. -/
theorem opens_iff (bytes : List UInt8) :
    folder.Opens path ↔ ∃ after, folder.write path bytes = .ok after := by
  simp only [Opens, write_eq_ok_iff]
  constructor
  · rintro ⟨_, names, last, hleads, -⟩
    exact ⟨_, names, last, hleads, rfl⟩
  · rintro ⟨_, names, last, hleads, -⟩
    exact ⟨_, names, last, hleads, rfl⟩

/-- A path that cannot be written cannot be written for a reason that is not in the bytes. -/
theorem write_eq_error {fault : PathFault} (h : folder.write path bytes = .error fault)
    (others : List UInt8) : folder.write path others = .error fault := by
  unfold write at h ⊢
  split at h
  next => exact h
  next =>
  dsimp only at h ⊢
  split at h
  next => exact h
  next names _ =>
  by_cases hlength : (withoutEndingSlashes (startOf path).2).length < (startOf path).2.length
  · rwa [if_pos hlength] at h ⊢
  rw [if_neg hlength] at h ⊢
  generalize (withoutEndingSlashes (startOf path).2).getLastD "" = last at h ⊢
  unfold writeAt at h ⊢
  by_cases hstep : isStep last
  · rwa [if_pos hstep] at h ⊢
  by_cases hlong : last.utf8ByteSize > longestName
  · rwa [if_neg hstep, if_pos hlong] at h ⊢
  by_cases hfolder : folder.isFolder (names ++ [last])
  · rwa [if_neg hstep, if_neg hlong, if_pos hfolder] at h ⊢
  · rw [if_neg hstep, if_neg hlong, if_neg hfolder] at h
    cases h

/-- **What is written is read at the same path.** -/
theorem read_of_write (h : folder.write path bytes = .ok after) : after.read path = .ok bytes := by
  obtain ⟨names, last, hleads, rfl⟩ := write_eq_ok_iff.1 h
  have hwider : Wider folder (folder.put (names ++ [last]) bytes) := wider_put
  have hfolder : (folder.put (names ++ [last]) bytes).isFolder (names ++ [last]) = false := by
    rw [isFolder_put, hleads.notFolder, bne_self_eq_false, Bool.and_false]
    rfl
  unfold read
  rw [hleads.sound]
  dsimp only
  rw [(walk_wider hwider hleads.way).1, hleads.atEnd]
  dsimp only
  rw [readAt, hleads.notStep, if_neg (by nofun), if_neg hleads.notLong, hfolder, if_neg (by nofun),
    bytes?_put, if_pos rfl]

/-- The names of a file that is written are those that its path leads to. -/
theorem Leads.namesOf_eq {last : String} (h : folder.Leads path names last) :
    namesOf path = names ++ [last] := by
  have hnames := (walk_wider (fun _ => id) h.way).2
  have hown := h.atEnd
  have hstep := h.notStep
  rcases List.eq_nil_or_concat (startOf path).2 with hnil | ⟨front, final, heq⟩
  · rw [hnil] at hown
    subst hown
    cases hstep
  · rw [heq, List.concat_eq_append] at hnames hown
    rw [List.getLastD_eq_getLast?, List.getLast?_concat, Option.getD_some] at hown
    rw [List.dropLast_concat] at hnames
    simp only [isStep, Bool.or_eq_false_iff, beq_eq_false_iff_ne] at hstep
    rw [namesOf, heq, List.concat_eq_append, List.foldl_append, ← hnames, hown, List.foldl_cons,
      List.foldl_nil, follow, if_neg (not_or.2 hstep.1), if_neg hstep.2]

/-- **The file that is written is the one that the path leads to**, and no other one is changed. -/
theorem bytes?_of_write (h : folder.write path bytes = .ok after) (other : List String) :
    after.bytes? other = if other = namesOf path then some bytes else folder.bytes? other := by
  obtain ⟨names, last, hleads, rfl⟩ := write_eq_ok_iff.1 h
  rw [bytes?_put, hleads.namesOf_eq]

theorem folders_of_write (h : folder.write path bytes = .ok after) :
    after.folders = folder.folders := by
  obtain ⟨names, last, -, rfl⟩ := write_eq_ok_iff.1 h
  rfl

/-- The only file, with a name in the folder where the command works, is read. -/
theorem read_ofFiles (hstart : startOf name = ([], [name])) (hsound : refused? name = none)
    (hstep : isStep name = false) (hshort : ¬ name.utf8ByteSize > longestName)
    (bytes : List UInt8) : (ofFiles [(name, bytes)]).read name = .ok bytes := by
  have hnames : namesOf name = [name] := by
    simp only [isStep, Bool.or_eq_false_iff, beq_eq_false_iff_ne] at hstep
    rw [namesOf, hstart, List.foldl_cons, List.foldl_nil, follow, if_neg (not_or.2 hstep.1),
      if_neg hstep.2]
    rfl
  have hfolder : isFolder ⟨[([name], bytes)], []⟩ [name] = false := by
    have hroot : name ≠ root := by
      rintro rfl
      exact absurd hstart (by decide +kernel)
    have habove : name ≠ ".." := by
      rintro rfl
      exact absurd hstep (by decide)
    simp [isFolder, hroot, habove]
  rw [ofFiles, List.map_cons, List.map_nil, hnames]
  unfold read
  rw [hsound]
  dsimp only
  rw [hstart]
  show readAt _ [] name = _
  rw [readAt, hstep, if_neg (by nofun), if_neg hshort, List.nil_append, hfolder, if_neg (by nofun),
    bytes?, lookup_cons_file, if_pos rfl]

end ScriptFrontend.Folder
