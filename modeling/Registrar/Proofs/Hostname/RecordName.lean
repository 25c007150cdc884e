import Mathlib.Data.List.Infix
import Registrar.Proofs.Hostname.Grammar

/-!
# Record names

The name of a record is made of the labels of a prefix and those of a hostname. The hostname is
checked and the prefix is not, so the names that are formed may be published just when the labels of
the prefix may (`publishes_well_iff`). Hostnames have one record name just when they are the same
but for the case of letters and a dot at the end (`recordName_eq_iff`).
-/

namespace Registrar.Hostname

variable {label : List Char} {text hostname hostname' name normal : String} {c : Char}

/-- A label that may be published: neither empty nor too long, and free of blanks. -/
structure IsPublic (label : List Char) : Prop where
  bytes : 1 ≤ byteLength label ∧ byteLength label ≤ 63
  unblank : ∀ c ∈ label, Text.isBlank c = false

/-- All labels of a text may be published. -/
def Fits (text : String) : Prop :=
  ∀ label ∈ text.toList.splitOn '.', IsPublic label

/-- A record name that may be published. -/
structure Publishable (name : String) : Prop where
  bytes : name.utf8ByteSize ≤ 253
  labels : Fits name

/-- A name is formed of a prefix and a hostname only if it may be published, and refused if the one
that there is may not. -/
structure PublishesWell (text hostname : String) : Prop where
  published : ∀ name, recordName text hostname = .ok name → Publishable name
  refused : (∀ normal, normalize hostname = .ok normal → ¬Publishable (text ++ "." ++ normal)) →
    ∃ e, recordName text hostname = .error e

theorem not_isBlank (h : c.isAlpha ∨ c.isDigit ∨ c = '-') : Text.isBlank c = false := by
  rcases h with h | h | rfl
  · exact Text.isBlank_of_isAlpha h
  · exact Text.isBlank_of_isDigit h
  · decide

theorem IsLabel.isPublic (h : IsLabel label) : IsPublic label :=
  ⟨h.bytes, fun c hc => not_isBlank (h.chars c hc)⟩

theorem fits_of_normalize (h : normalize hostname = .ok normal) : Fits normal :=
  fun label hlabel => ((normalize_eq_ok_iff.1 h).1.labels label hlabel).isPublic

theorem fits_append : Fits (text ++ "." ++ normal) ↔ Fits text ∧ Fits normal := by
  have hparts : (text ++ "." ++ normal).toList.splitOn '.'
      = text.toList.splitOn '.' ++ normal.toList.splitOn '.' := by
    rw [String.toList_append, String.toList_append, List.append_assoc]
    exact List.splitOn_append_cons_self _ _
  rw [Fits, hparts]
  exact List.forall_mem_append

theorem utf8ByteSize_joined (text normal : String) :
    (text ++ "." ++ normal).utf8ByteSize = text.utf8ByteSize + 1 + normal.utf8ByteSize := by
  rw [String.utf8ByteSize_append, String.utf8ByteSize_append]
  rfl

theorem recordName_of_refused {e : HostnameError} (text : String)
    (h : normalize hostname = .error e) : recordName text hostname = .error e := by
  simp only [recordName, h, bind, Except.bind]

theorem recordName_of_normalize (text : String) (h : normalize hostname = .ok normal) :
    recordName text hostname = if 252 < text.utf8ByteSize + normal.utf8ByteSize
      then .error { hostname := normal, fault := .recordTooLong }
      else .ok (text ++ "." ++ normal) := by
  have hlong : maxName < (text ++ "." ++ normal).utf8ByteSize ↔
      252 < text.utf8ByteSize + normal.utf8ByteSize := by
    rw [utf8ByteSize_joined, maxName]
    omega
  simp only [recordName, h, bind, Except.bind, byteLength_toList, hlong]
  split <;> rfl

theorem recordName_eq_ok_iff : recordName text hostname = .ok name ↔
    ∃ normal, normalize hostname = .ok normal ∧ name = text ++ "." ++ normal ∧
      text.utf8ByteSize + normal.utf8ByteSize ≤ 252 := by
  rcases hnormal : normalize hostname with e | normal
  · rw [recordName_of_refused text hnormal]
    simp
  · rw [recordName_of_normalize text hnormal]
    split
    · rename_i hlong
      simp [Nat.not_le.2 hlong]
    · rename_i hshort
      simp [Nat.not_lt.1 hshort, eq_comm]

/-- A name that is formed may be published just when the prefix may. -/
theorem publishable_iff_fits (h : recordName text hostname = .ok name) :
    Publishable name ↔ Fits text := by
  obtain ⟨normal, hnormal, rfl, hshort⟩ := recordName_eq_ok_iff.1 h
  refine ⟨fun h => (fits_append.1 h.labels).1, fun h => ⟨?_, fits_append.2 ⟨h, ?_⟩⟩⟩
  · rw [utf8ByteSize_joined]
    omega
  · exact fits_of_normalize hnormal

theorem publishesWell_iff : PublishesWell text hostname ↔
    Fits text ∨ ∀ normal, normalize hostname = .ok normal →
      252 < text.utf8ByteSize + normal.utf8ByteSize := by
  constructor
  · rintro ⟨published, -⟩
    rw [or_iff_not_imp_right]
    intro h
    push Not at h
    obtain ⟨normal, hnormal, hshort⟩ := h
    have hname : recordName text hostname = .ok (text ++ "." ++ normal) :=
      recordName_eq_ok_iff.2 ⟨normal, hnormal, rfl, hshort⟩
    exact (publishable_iff_fits hname).1 (published _ hname)
  · intro h
    have hpublished : ∀ name, recordName text hostname = .ok name → Publishable name := by
      intro name hname
      obtain ⟨normal, hnormal, -, hshort⟩ := recordName_eq_ok_iff.1 hname
      exact (publishable_iff_fits hname).2
        (h.resolve_right fun hlong => Nat.not_lt.2 hshort (hlong normal hnormal))
    refine ⟨hpublished, fun hnone => ?_⟩
    rcases hname : recordName text hostname with e | name
    · exact ⟨e, rfl⟩
    · obtain ⟨normal, hnormal, rfl, -⟩ := recordName_eq_ok_iff.1 hname
      exact absurd (hpublished _ hname) (hnone normal hnormal)

/-- Of a hostname no name is formed that may not be published, unless it would be short enough and
the prefix does not fit. A prefix that does not fit is harmless only when it leaves no room for any
hostname. -/
theorem publishes_well_iff (text : String) :
    (∀ hostname, PublishesWell text hostname ↔
      Fits text ∨ ∀ normal, normalize hostname = .ok normal →
        252 < text.utf8ByteSize + normal.utf8ByteSize) ∧
    ((∀ hostname, PublishesWell text hostname) ↔ Fits text ∨ 251 < text.utf8ByteSize) := by
  refine ⟨fun hostname => publishesWell_iff, fun h => ?_, fun h hostname => ?_⟩
  · refine (publishesWell_iff.1 (h "a")).imp_right fun hlong => ?_
    have hshort : 252 < text.utf8ByteSize + 1 := hlong "a" (by decide +kernel)
    omega
  · refine publishesWell_iff.2 (h.imp_right fun hlong normal hnormal => ?_)
    have hbytes := (normalize_eq_ok_iff.1 hnormal).1.bytes.1
    rw [byteLength_toList] at hbytes
    omega

/-- A prefix that ends in a dot, and a name with an empty label. -/
theorem empty_label_published : ¬∀ text hostname, PublishesWell text hostname := by
  intro h
  have hname : recordName "_v." "acme.example" = .ok "_v..acme.example" := by decide +kernel
  have hempty : [] ∈ "_v..acme.example".toList.splitOn '.' := by decide +kernel
  have hbytes := (((h "_v." "acme.example").published _ hname).labels [] hempty).bytes.1
  exact absurd hbytes (by decide)

/-- Two hostnames are the same but for the case of their letters and one dot at their ends. -/
def SameName (hostname hostname' : String) : Prop :=
  (withoutDot hostname.toList).map Char.toLower = (withoutDot hostname'.toList).map Char.toLower

theorem normalize_eq_iff (h : normalize hostname = .ok normal) :
    normalize hostname' = .ok normal ↔ SameName hostname hostname' := by
  obtain ⟨hname, hlower⟩ := normalize_eq_ok_iff.1 h
  rw [normalize_eq_ok_iff, SameName, hlower]
  exact ⟨fun ⟨_, hlower'⟩ => hlower'.symm, fun hsame => ⟨hname, hsame.symm⟩⟩

/-- Hostnames of one normal form have one record name or none. -/
theorem recordName_congr (text : String) (h : normalize hostname = .ok normal)
    (h' : normalize hostname' = .ok normal) :
    recordName text hostname = recordName text hostname' := by
  rw [recordName_of_normalize text h, recordName_of_normalize text h']

theorem recordName_eq_iff (h : recordName text hostname = .ok name) :
    recordName text hostname' = .ok name ↔ SameName hostname hostname' := by
  obtain ⟨normal, hnormal, hname, -⟩ := recordName_eq_ok_iff.1 h
  rw [← normalize_eq_iff hnormal]
  constructor
  · intro h'
    obtain ⟨normal', hnormal', hname', -⟩ := recordName_eq_ok_iff.1 h'
    rw [hnormal', (String.append_right_inj (text ++ ".")).1 (hname'.symm.trans hname)]
  · intro hnormal'
    rw [← h, recordName_congr text hnormal hnormal']

theorem IsName.not_isBlank_head {rest : List Char} (h : IsName (c :: rest)) :
    Text.isBlank c = false := by
  by_cases hdot : c = '.'
  · rw [hdot]
    decide
  · obtain ⟨first, others, hparts⟩ := List.exists_cons_of_ne_nil (List.splitOn_ne_nil '.' rest)
    have hmem : c :: first ∈ (c :: rest).splitOn '.' := by
      rw [List.splitOn_cons_eq_if_modifyHead, if_neg (by simpa using hdot), hparts]
      exact List.mem_cons_self
    exact not_isBlank ((h.labels _ hmem).chars c List.mem_cons_self)

theorem trim_ne_of_normalize (h : normalize hostname = .ok normal) : Text.trim hostname ≠ "" := by
  intro hblank
  obtain ⟨hname, hlower⟩ := normalize_eq_ok_iff.1 h
  rw [← hlower, isName_map_toLower] at hname
  obtain ⟨c, rest, hcs⟩ := List.exists_cons_of_ne_nil (byteLength_pos_iff.1 hname.bytes.1)
  have hmem : c ∈ hostname.toList := by
    have hfirst : c ∈ withoutDot hostname.toList := hcs ▸ List.mem_cons_self
    rw [withoutDot] at hfirst
    split at hfirst
    · exact List.mem_of_mem_dropLast hfirst
    · exact hfirst
  have hhead := (hcs ▸ hname).not_isBlank_head
  rw [Text.trim_eq_empty_iff.1 hblank c hmem] at hhead
  cases hhead

end Registrar.Hostname
