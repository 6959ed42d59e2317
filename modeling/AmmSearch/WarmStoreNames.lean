/-
The names that the warm store gives to its directories and files.  Staging
generations are never taken for sealed ones, the temporary file is never the
manifest, and two numbers of a process never give the same staging name.
-/
import AmmSearch.WarmStore

open FiniteMap

namespace AmmSearch

/-- The characters of a number, and of what makes a staging generation unique. -/
def nameChar (char : Char) : Prop :=
  char.isDigit = true ∨ char = '-'

theorem isDigit_of_mem_repr {char : Char} {number : ℕ} (hchar : char ∈ number.repr.toList) :
    char.isDigit = true := by
  rw [Nat.toList_repr] at hchar
  exact Nat.isDigit_of_mem_toDigits (by decide) (by decide) hchar

theorem nameChar_of_mem_uniqueText {processId nanos sequence : ℕ} {char : Char}
    (hchar : char ∈ (uniqueText processId nanos sequence).toList) : nameChar char := by
  simp only [uniqueText, String.toList_append, List.mem_append] at hchar
  rcases hchar with (((hchar | hchar) | hchar) | hchar) | hchar
  · exact Or.inl (isDigit_of_mem_repr hchar)
  · exact Or.inr (by simpa using hchar)
  · exact Or.inl (isDigit_of_mem_repr hchar)
  · exact Or.inr (by simpa using hchar)
  · exact Or.inl (isDigit_of_mem_repr hchar)

theorem slash_not_nameChar : ¬ nameChar '/' := by
  unfold nameChar
  decide

/-- The text after the last dash. -/
def lastSegment (text : List Char) : List Char :=
  (text.reverse.takeWhile (· ≠ '-')).reverse

theorem lastSegment_append {front digits : List Char} (hdigits : '-' ∉ digits) :
    lastSegment (front ++ '-' :: digits) = digits := by
  have hreverse : (front ++ '-' :: digits).reverse = digits.reverse ++ '-' :: front.reverse := by
    simp
  have hall : ∀ char ∈ digits.reverse, decide (char ≠ '-') = true := by
    intro char hchar
    rw [decide_eq_true_eq]
    rintro rfl
    exact hdigits (List.mem_reverse.mp hchar)
  rw [lastSegment, hreverse, List.takeWhile_append_of_pos hall,
    List.takeWhile_cons_of_neg (by simp), List.append_nil, List.reverse_reverse]

theorem lastSegment_uniqueText (processId nanos sequence : ℕ) :
    lastSegment (uniqueText processId nanos sequence).toList = sequence.repr.toList := by
  have hdash : '-' ∉ sequence.repr.toList := by
    intro hmem
    exact absurd (isDigit_of_mem_repr hmem) (by decide)
  have hsplit : (uniqueText processId nanos sequence).toList =
      (processId.repr ++ "-" ++ nanos.repr).toList ++ '-' :: sequence.repr.toList := by
    simp [uniqueText, String.toList_append]
  rw [hsplit, lastSegment_append hdash]

/-- Different numbers give different staging names. -/
theorem stagingName_inj {processId first second firstNanos secondNanos : ℕ}
    (hsame : stagingName (uniqueText processId firstNanos first) =
      stagingName (uniqueText processId secondNanos second)) : first = second := by
  have hlist := congrArg String.toList hsame
  rw [stagingName, stagingName, String.toList_append, String.toList_append] at hlist
  have hunique := congrArg lastSegment (List.append_cancel_left hlist)
  rw [lastSegment_uniqueText, lastSegment_uniqueText] at hunique
  rw [Nat.toList_repr, Nat.toList_repr] at hunique
  have hnumber := congrArg (fun digits => Nat.ofDigitChars 10 digits 0) hunique
  simpa using hnumber

theorem safeGenerationName_stagingName (unique : String) :
    safeGenerationName (stagingName unique) = false := by
  have hprefix : "gen-".toList.isPrefixOf (stagingName unique).toList = false := by
    rw [stagingName, String.toList_append]
    rfl
  rw [safeGenerationName, hprefix]
  rfl

theorem temporaryName_ne_manifestFile (path : String) (sequence : ℕ) :
    temporaryName path sequence ≠ manifestFile := by
  intro hsame
  have hlist := congrArg String.toList hsame
  simp [temporaryName, manifestFile, String.toList_append] at hlist

/-- The staging prefix is taken off once. -/
theorem trimStartMatches_stagingName (processId nanos sequence : ℕ) :
    trimStartMatches (stagingName (uniqueText processId nanos sequence)) ".staging-" =
      uniqueText processId nanos sequence := by
  have hhead : ∀ text : List Char, (∀ char ∈ text, nameChar char) → ∀ fuel,
      trimStart ".staging-".toList fuel text = text := by
    intro text htext fuel
    cases fuel with
    | zero => rfl
    | succ fuel =>
        rw [trimStart, if_neg]
        cases text with
        | nil => exact nofun
        | cons head rest =>
            intro hprefix
            have hdot : head = '.' := by
              have hpattern : ".staging-".toList = '.' :: "staging-".toList := rfl
              rw [hpattern, List.isPrefixOf_cons_cons, Bool.and_eq_true, beq_iff_eq] at hprefix
              exact hprefix.1.symm
            have hchar := htext head List.mem_cons_self
            rw [hdot] at hchar
            exact absurd hchar (by unfold nameChar; decide)
  have hname : ∀ char ∈ (uniqueText processId nanos sequence).toList, nameChar char :=
    fun _ => nameChar_of_mem_uniqueText
  have hlist : (stagingName (uniqueText processId nanos sequence)).toList =
      ".staging-".toList ++ (uniqueText processId nanos sequence).toList :=
    String.toList_append
  have hlength : (".staging-".toList ++ (uniqueText processId nanos sequence).toList).length =
      (uniqueText processId nanos sequence).toList.length + 8 + 1 := by
    rw [List.length_append, Nat.add_comm]
    rfl
  have hprefix : ".staging-".toList.isPrefixOf
      (".staging-".toList ++ (uniqueText processId nanos sequence).toList) = true :=
    List.isPrefixOf_iff_prefix.mpr (List.prefix_append _ _)
  rw [trimStartMatches, hlist, hlength, trimStart, if_pos hprefix, List.drop_left,
    hhead _ hname, String.ofList_toList]

theorem slash_not_mem_hashPrefix (hash : BitVec 256) : '/' ∉ (hashPrefix hash).toList := by
  rw [hashPrefix, String.toList_ofList]
  intro hslash
  obtain ⟨index, _, hdigit⟩ := List.mem_map.mp hslash
  have hall : ∀ digit < 16, Nat.digitChar digit ≠ '/' := by decide
  exact hall _ (Nat.mod_lt _ (by decide)) hdigit

/-- A sealed generation has a safe name. -/
theorem safeGenerationName_generationName (checkpoint : WarmCheckpoint) {unique : String}
    (hunique : '/' ∉ unique.toList) :
    safeGenerationName (generationName checkpoint unique) = true := by
  have hlist : ∃ rest : List Char, (generationName checkpoint unique).toList =
      'g' :: 'e' :: 'n' :: '-' :: rest ∧ '/' ∉ rest := by
    refine ⟨(checkpoint.blockNumber.toNat.repr ++ "-" ++ hashPrefix checkpoint.blockHash ++ "-" ++
      unique).toList, ?_, ?_⟩
    · simp [generationName, String.toList_append]
    · simp only [String.toList_append, List.mem_append, not_or]
      refine ⟨⟨⟨⟨?_, by decide⟩, slash_not_mem_hashPrefix _⟩, by decide⟩, hunique⟩
      intro hslash
      exact absurd (isDigit_of_mem_repr hslash) (by decide)
  obtain ⟨rest, hname, hslash⟩ := hlist
  have hsplit : ('g' :: 'e' :: 'n' :: '-' :: rest).splitOn '/' =
      ['g' :: 'e' :: 'n' :: '-' :: rest] := by
    refine List.splitOnP_eq_singleton ?_
    intro char hchar
    rw [beq_eq_false_iff_ne]
    rintro rfl
    simp only [List.mem_cons, hslash, or_false] at hchar
    revert hchar
    decide
  have hcomponents : pathComponents (generationName checkpoint unique) =
      ['g' :: 'e' :: 'n' :: '-' :: rest] := by
    rw [pathComponents, hname, hsplit]
    rfl
  rw [safeGenerationName, hcomponents, hname]
  rfl

end AmmSearch
