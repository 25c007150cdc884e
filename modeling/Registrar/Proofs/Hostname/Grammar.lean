import Registrar.Hostname
import Registrar.Proofs.Text

/-!
# The grammar of hostnames

A hostname is accepted just when, but for one dot at its end, it is a row of labels (`IsName`). Its
normal form is that row in small letters, which no spelling of the hostname changes
(`normalize_canonical`): two hostnames have one normal form when they are the same in small letters
and without the dot (`normalize_eq_ok_iff`).
-/

namespace Registrar.Hostname

open Text

variable {cs label : List Char} {c d : Char} {hostname n : String}

/-- A label of a hostname: letters, digits and hyphens, and a hyphen at neither end. -/
structure IsLabel (label : List Char) : Prop where
  bytes : 1 ≤ byteLength label ∧ byteLength label ≤ 63
  chars : ∀ c ∈ label, c.isAlpha ∨ c.isDigit ∨ c = '-'
  first : label.head? ≠ some '-'
  last : label.getLast? ≠ some '-'

/-- A hostname without a dot at its end. -/
structure IsName (cs : List Char) : Prop where
  bytes : 1 ≤ byteLength cs ∧ byteLength cs ≤ 253
  labels : ∀ label ∈ cs.splitOn '.', IsLabel label

theorem byteLength_toList (s : String) : byteLength s.toList = s.utf8ByteSize := by
  have hchars : ∀ cs, byteLength cs = String.utf8Len cs := by
    intro cs
    induction cs with
    | nil => rfl
    | cons c rest ih => rw [byteLength, ih, String.utf8Len_cons, Nat.add_comm]
  rw [hchars, ← String.utf8ByteSize_ofList, String.ofList_toList]

theorem byteLength_pos_iff : 1 ≤ byteLength cs ↔ cs ≠ [] := by
  rcases cs with _ | ⟨c, rest⟩
  · simp [byteLength]
  · have hc := c.utf8Size_pos
    simp only [byteLength, ne_eq, reduceCtorEq, not_false_eq_true, iff_true]
    omega

theorem not_isEmpty_iff : ¬cs.isEmpty = true ↔ 1 ≤ byteLength cs := by
  rw [byteLength_pos_iff, List.isEmpty_iff]

theorem labels_eq_splitOn (cs : List Char) : labels cs = cs.splitOn '.' := by
  induction cs with
  | nil => rfl
  | cons c rest ih =>
    rw [labels, ih, List.splitOn_cons_eq_if_modifyHead]
    by_cases hc : c = '.'
    · simp [hc]
    · obtain ⟨first, others, hparts⟩ :=
        List.exists_cons_of_ne_nil (List.splitOn_ne_nil '.' rest)
      simp [hc, hparts]

theorem withoutDot_concat (cs : List Char) : withoutDot (cs ++ ['.']) = cs := by
  simp [withoutDot]

theorem withoutDot_of_ne (h : cs.getLast? ≠ some '.') : withoutDot cs = cs :=
  if_neg h

theorem byteLength_map_toLower (cs : List Char) :
    byteLength (cs.map Char.toLower) = byteLength cs := by
  induction cs with
  | nil => rfl
  | cons c rest ih => rw [List.map_cons, byteLength, byteLength, ih, utf8Size_toLower]

theorem splitOn_map_toLower (cs : List Char) :
    (cs.map Char.toLower).splitOn '.' = (cs.splitOn '.').map (List.map Char.toLower) := by
  induction cs with
  | nil => rfl
  | cons c rest ih =>
    have hdot : c.toLower = '.' ↔ c = '.' := toLower_eq_iff (by decide)
    rw [List.map_cons, List.splitOn_cons_eq_if_modifyHead, List.splitOn_cons_eq_if_modifyHead, ih]
    obtain ⟨first, others, hparts⟩ := List.exists_cons_of_ne_nil (List.splitOn_ne_nil '.' rest)
    by_cases hc : c = '.' <;> simp [hdot, hc, hparts]

theorem getLast?_map_toLower (hd : d.isAlpha = false) :
    (cs.map Char.toLower).getLast? = some d ↔ cs.getLast? = some d := by
  rw [List.getLast?_map, Option.map_eq_some_iff]
  simp [toLower_eq_iff hd]

theorem head?_map_toLower (hd : d.isAlpha = false) :
    (cs.map Char.toLower).head? = some d ↔ cs.head? = some d := by
  rw [List.head?_map, Option.map_eq_some_iff]
  simp [toLower_eq_iff hd]

theorem withoutDot_map_toLower (cs : List Char) :
    withoutDot (cs.map Char.toLower) = (withoutDot cs).map Char.toLower := by
  simp only [withoutDot, getLast?_map_toLower (d := '.') (by decide)]
  split
  · rw [List.map_dropLast]
  · rfl

theorem map_toLower_twice (cs : List Char) :
    (cs.map Char.toLower).map Char.toLower = cs.map Char.toLower := by
  rw [List.map_map]
  exact List.map_congr_left fun c _ => toLower_toLower c

theorem isLabelChar_iff : isLabelChar c = true ↔ c.isAlpha ∨ c.isDigit ∨ c = '-' := by
  simp [isLabelChar, Char.isAlphanum, or_assoc]

theorem isLabelChar_toLower (c : Char) : isLabelChar c.toLower = isLabelChar c := by
  rcases hc : c.isAlpha with _ | _
  · rw [toLower_of_not_isAlpha hc]
  · rw [Bool.eq_iff_iff, isLabelChar_iff, isLabelChar_iff, isAlpha_toLower, hc]
    simp

theorem labelFault?_eq_none_iff : labelFault? label = none ↔ IsLabel label := by
  have hchars : label.all isLabelChar = true ↔ ∀ c ∈ label, c.isAlpha ∨ c.isDigit ∨ c = '-' := by
    simp [isLabelChar_iff]
  constructor
  · intro h
    simp only [labelFault?] at h
    split_ifs at h with hempty hlong hbad hhyphen
    rw [not_or] at hhyphen
    exact ⟨⟨not_isEmpty_iff.1 hempty, Nat.not_lt.1 hlong⟩, hchars.1 (by simpa using hbad),
      hhyphen.1, hhyphen.2⟩
  · intro h
    have hshort : ¬maxLabel < byteLength label := Nat.not_lt.2 h.bytes.2
    rw [labelFault?, if_neg (not_isEmpty_iff.2 h.bytes.1), if_neg hshort,
      if_neg (by simp [hchars.2 h.chars]), if_neg (by simp [h.first, h.last])]

theorem fault?_eq_none_iff : fault? cs = none ↔ IsName cs := by
  have hlabels : (labels cs).findSome? labelFault? = none ↔
      ∀ label ∈ cs.splitOn '.', IsLabel label := by
    rw [List.findSome?_eq_none_iff, labels_eq_splitOn]
    simp only [labelFault?_eq_none_iff]
  constructor
  · intro h
    simp only [fault?] at h
    split_ifs at h with hempty hlong
    exact ⟨⟨not_isEmpty_iff.1 hempty, Nat.not_lt.1 hlong⟩, hlabels.1 h⟩
  · intro h
    have hshort : ¬maxName < byteLength cs := Nat.not_lt.2 h.bytes.2
    rw [fault?, if_neg (not_isEmpty_iff.2 h.bytes.1), if_neg hshort, hlabels.2 h.labels]

theorem isLabel_map_toLower : IsLabel (label.map Char.toLower) ↔ IsLabel label := by
  have hchars : (∀ c ∈ label.map Char.toLower, c.isAlpha ∨ c.isDigit ∨ c = '-') ↔
      ∀ c ∈ label, c.isAlpha ∨ c.isDigit ∨ c = '-' := by
    simp only [← isLabelChar_iff, List.forall_mem_map, isLabelChar_toLower]
  refine ⟨fun h => ⟨?_, ?_, ?_, ?_⟩, fun h => ⟨?_, ?_, ?_, ?_⟩⟩
  · exact byteLength_map_toLower label ▸ h.bytes
  · exact hchars.1 h.chars
  · exact fun hfirst => h.first ((head?_map_toLower (by decide)).2 hfirst)
  · exact fun hlast => h.last ((getLast?_map_toLower (by decide)).2 hlast)
  · rw [byteLength_map_toLower]
    exact h.bytes
  · exact hchars.2 h.chars
  · exact fun hfirst => h.first ((head?_map_toLower (by decide)).1 hfirst)
  · exact fun hlast => h.last ((getLast?_map_toLower (by decide)).1 hlast)

/-- A row of labels in small letters is one. -/
theorem isName_map_toLower : IsName (cs.map Char.toLower) ↔ IsName cs := by
  have hlabels : (∀ label ∈ (cs.map Char.toLower).splitOn '.', IsLabel label) ↔
      ∀ label ∈ cs.splitOn '.', IsLabel label := by
    rw [splitOn_map_toLower, List.forall_mem_map]
    simp only [isLabel_map_toLower]
  refine ⟨fun h => ⟨?_, hlabels.1 h.labels⟩, fun h => ⟨?_, hlabels.2 h.labels⟩⟩
  · exact byteLength_map_toLower cs ▸ h.bytes
  · rw [byteLength_map_toLower]
    exact h.bytes

/-- A row of labels has no dot at its end, since no label is empty. -/
theorem IsName.withoutDot_eq (h : IsName cs) : withoutDot cs = cs := by
  refine withoutDot_of_ne fun hlast => ?_
  obtain ⟨front, rfl⟩ := List.getLast?_eq_some_iff.1 hlast
  have hparts : (front ++ ['.']).splitOn '.' = front.splitOn '.' ++ [[]] :=
    List.splitOn_append_cons_self front []
  have hempty := (h.labels [] (by simp [hparts])).bytes.1
  exact absurd rfl (byteLength_pos_iff.1 hempty)

theorem normalize_eq_ok_iff : normalize hostname = .ok n ↔
    IsName n.toList ∧ (withoutDot hostname.toList).map Char.toLower = n.toList := by
  have hok : normalize hostname = .ok n ↔ IsName (withoutDot hostname.toList) ∧
      String.ofList ((withoutDot hostname.toList).map Char.toLower) = n := by
    rw [← fault?_eq_none_iff, normalize]
    split
    · rename_i fault hfault
      simp [hfault]
    · rename_i hnone
      simp [hnone]
  rw [hok, ← isName_map_toLower]
  refine ⟨fun ⟨hname, h⟩ => ?_, fun ⟨hname, h⟩ => ?_⟩
  · rw [← h, String.toList_ofList]
    exact ⟨hname, rfl⟩
  · rw [h, String.ofList_toList]
    exact ⟨hname, rfl⟩

/-- Just the rows of labels are accepted, with a dot at the end or without. Their normal form is
their own, that with the dot and that of any other spelling of the letters. -/
theorem normalize_canonical (hostname : String) :
    ((∃ n, normalize hostname = .ok n) ↔ IsName (withoutDot hostname.toList)) ∧
    ∀ n, normalize hostname = .ok n →
      n.toList = (withoutDot hostname.toList).map Char.toLower ∧
      normalize n = .ok n ∧ normalize (n ++ ".") = .ok n ∧
      ∀ spelling : String, spelling.toLower = hostname.toLower → normalize spelling = .ok n := by
  refine ⟨?_, fun n h => ?_⟩
  · constructor
    · rintro ⟨n, h⟩
      obtain ⟨hname, hlower⟩ := normalize_eq_ok_iff.1 h
      exact isName_map_toLower.1 (hlower ▸ hname)
    · intro hname
      refine ⟨String.ofList ((withoutDot hostname.toList).map Char.toLower),
        normalize_eq_ok_iff.2 ?_⟩
      rw [String.toList_ofList]
      exact ⟨isName_map_toLower.2 hname, rfl⟩
  · obtain ⟨hname, hlower⟩ := normalize_eq_ok_iff.1 h
    have hsmall : n.toList.map Char.toLower = n.toList := by
      rw [← hlower, map_toLower_twice]
    refine ⟨hlower.symm, normalize_eq_ok_iff.2 ⟨hname, ?_⟩, normalize_eq_ok_iff.2 ⟨hname, ?_⟩,
      fun spelling hspelling => normalize_eq_ok_iff.2 ⟨hname, ?_⟩⟩
    · rw [hname.withoutDot_eq, hsmall]
    · rw [String.toList_append]
      exact (congrArg _ (withoutDot_concat n.toList)).trans hsmall
    · have hchars : spelling.toList.map Char.toLower = hostname.toList.map Char.toLower := by
        rw [← String.toList_map, ← String.toList_map]
        exact congrArg String.toList hspelling
      rw [← hlower, ← withoutDot_map_toLower, hchars, withoutDot_map_toLower]

example : normalize "Acme.Example." = .ok "acme.example" := by decide +kernel

end Registrar.Hostname
