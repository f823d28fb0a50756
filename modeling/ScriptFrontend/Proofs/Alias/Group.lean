import ScriptFrontend.Alias.Basic

/-!
# Proofs/Alias/Group — what a group of aliases holds

A group is gone through by recursion, and only as deep as a limit says.  Without a limit it has the
aliases `wordsIn group`, and its arrays are nested as deep as `groupDepth group`; within a limit the
aliases are found exactly if that is no more (`aliasesIn_eq`).

Likewise a target means the kind `Target.meant?`, and resolving it finds that kind whatever the
limit is (`resolve_eq_ok_iff_meant`): a limit can only change how it fails.
-/

namespace ScriptFrontend

/-! ## Groups -/

mutual

/-- The aliases in a group, however deep they are. -/
def wordsIn : Json → List String
  | .string word => [word]
  | .array groups => wordsInAll groups
  | .object members => members.map Prod.fst
  | _ => []

/-- The aliases in several groups. -/
def wordsInAll : List Json → List String
  | [] => []
  | group :: rest => wordsIn group ++ wordsInAll rest

end

mutual

/-- How deep arrays are nested in a group. -/
def groupDepth : Json → Nat
  | .array groups => groupDepthAll groups + 1
  | _ => 0

/-- How deep they are nested in the deepest of several groups. -/
def groupDepthAll : List Json → Nat
  | [] => 0
  | group :: rest => max (groupDepth group) (groupDepthAll rest)

end

mutual

/-- **Within a limit all aliases are found, or none** if the group is too deep. -/
theorem aliasesIn_eq : ∀ (limit : Nat) (group : Json),
    aliasesIn limit group = if groupDepth group ≤ limit then some (wordsIn group) else none
  | 0, .array groups => by simp [aliasesIn, groupDepth]
  | limit + 1, .array groups => by
    rw [aliasesIn, aliasesInAll_eq limit groups, groupDepth, wordsIn]
    simp only [Nat.succ_le_succ_iff]
  | limit, .string word => by simp [aliasesIn, groupDepth, wordsIn]
  | limit, .object members => by simp [aliasesIn, groupDepth, wordsIn]
  | limit, .null | limit, .bool _ | limit, .int _ | limit, .float _ => by
    simp [aliasesIn, groupDepth, wordsIn]

theorem aliasesInAll_eq (limit : Nat) : ∀ groups : List Json,
    aliasesInAll limit groups =
      if groupDepthAll groups ≤ limit then some (wordsInAll groups) else none
  | [] => by simp [aliasesInAll, groupDepthAll, wordsInAll]
  | group :: rest => by
    rw [aliasesInAll, aliasesIn_eq limit group, aliasesInAll_eq limit rest, groupDepthAll,
      wordsInAll]
    simp only [Nat.max_le]
    by_cases hgroup : groupDepth group ≤ limit
    · by_cases hrest : groupDepthAll rest ≤ limit <;> simp [hgroup, hrest]
    · simp [hgroup]

end

theorem wordsInAll_eq (groups : List Json) : wordsInAll groups = groups.flatMap wordsIn := by
  induction groups with
  | nil => rfl
  | cons group groups ih => rw [wordsInAll, ih, List.flatMap_cons]

/-! ## Targets -/

/-- The kind of the reserved word that a target means, if it means one. -/
def Target.meant? : Target → Option Keyword
  | .kind (.keyword word) => some word
  | .value (.string name) =>
    match Kind.ofName? name with
    | some (.keyword word) => some word
    | _ => none
  | _ => none

/-- **Resolving a target finds what it means**, whatever the limit is. -/
theorem resolve_eq_ok_iff_meant {limit : Nat} {target : Target} {kind : Keyword} :
    target.resolve limit = .ok kind ↔ target.meant? = some kind := by
  cases target with
  | kind given => cases given <;> simp [Target.resolve, Target.kind?, Target.meant?]
  | value json =>
    cases json with
    | string name =>
      simp only [Target.resolve, Target.kind?, Target.meant?]
      cases Kind.ofName? name with
      | none => simp
      | some given => cases given <;> simp
    | _ => simp [Target.resolve, Target.kind?, Target.meant?]

end ScriptFrontend
