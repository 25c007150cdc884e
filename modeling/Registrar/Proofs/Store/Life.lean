import Registrar.Proofs.Store.Stale

/-!
# The life of an object

An object is born by a creation. From then on a request leaves it as it is, writes it in its next
version, marks it as deleting, or takes it away, which only a deletion and a patch can do that find
no finalizer left (`passage_serve`). What this says of one request adds up over any number of them:
while an object is stored, its version counts its changes and its generation those of its spec
(`continues_of_uid_eq`).
-/

namespace Registrar

open Resource Parts

/-- The hostname that an object asks for, if it asks for one. -/
def Kind.hostname? : (k : Kind) → k.Object → Option String
  | .registration, o => some (Registration.hostname o)
  | .domain, _ => none

theorem Kind.hostname?_eq {k : Kind} {o p : k.Object} (hkey : Resource.key o = Resource.key p)
    (hspec : spec o = spec p) : k.hostname? o = k.hostname? p := by
  cases k with
  | registration =>
    have hname : (metadata o).name = (metadata p).name := congrArg Key.name hkey
    exact congrArg some (congrArg₂ (fun (t : Registration.Spec) name => t.hostname?.getD name)
      hspec hname)
  | domain => rfl

/-- A number that is not the last one is raised by one. -/
theorem toNat_raised {v : UInt64} {n : Nat} (h : v.toNat ≤ n) (hn : n + 1 < 2 ^ 64) :
    (v + 1).toNat = v.toNat + 1 := by
  rw [UInt64.toNat_add]
  exact Nat.mod_eq_of_lt (by simp; omega)

namespace Store

variable {s : Store} {k : Kind} {key : Key} {r : Request} {now : Time} {o o' : k.Object}

/-- What a request makes of what is stored under a key. -/
inductive Passage (k : Kind) (key : Key) (r : Request) (now : Time) :
    Option k.Object → Option k.Object → Prop
  | idle (stored : Option k.Object) : Passage k key r now stored stored
  | born {object : k.Object} (request : r = .create k object) (key_eq : Resource.key object = key)
      (uid : String) : Passage k key r now none (some (stamped object uid now))
  | written {o next : k.Object} (uid : (metadata next).uid = (metadata o).uid)
      (creation : (metadata next).creationTime = (metadata o).creationTime)
      (deletion : (metadata next).deletionTime = (metadata o).deletionTime)
      (version : (metadata next).resourceVersion = (metadata o).resourceVersion + 1)
      (generation : (metadata next).generation
        = if spec next = spec o then (metadata o).generation else (metadata o).generation + 1)
      (fixed : immutableSpec k.Object = true → spec next = spec o) :
      Passage k key r now (some o) (some next)
  | marked {o : k.Object} (request : r = .delete k key) (held : (metadata o).finalizers ≠ [])
      (live : ¬isDeleting o) : Passage k key r now (some o) (some (marked o now))
  | deleted {o : k.Object} (request : r = .delete k key) (bare : (metadata o).finalizers = []) :
      Passage k key r now (some o) none
  | released {o base mutated : k.Object} (request : r = .patch k base mutated)
      (key_eq : Resource.key base = key) (deleting : isDeleting o)
      (bare : (metadata mutated).finalizers = []) : Passage k key r now (some o) none

theorem passage_create (s : Store) (now : Time) (object : k.Object) (key : Key) :
    Passage k key (.create k object) now (s.find? k.Object key)
      ((s.create now object).store.find? k.Object key) := by
  obtain ⟨e, h⟩ | ⟨new, rfl, -, habsent, h⟩ := create_cases (s := s) now object <;> rw [h]
  · exact .idle _
  · rw [find?_put, key_stamped]
    split
    · rename_i hkey
      have hnone : s.find? k.Object key = none := by simp [find?, hkey, habsent]
      rw [hnone]
      exact .born rfl hkey.symm _
    · exact .idle _

theorem passage_patch (h : s.SoundFor k.Object) (base mutated : k.Object) (key : Key) :
    Passage k key (.patch k base mutated) now (s.find? k.Object key)
      ((s.patch base mutated).store.find? k.Object key) := by
  obtain ⟨e, hp⟩ | ⟨current, hacc, hkey, ⟨-, hp⟩ |
    ⟨next, changed, rfl, hchanged, hfixed, -, ⟨hdeleting, hbare, hp⟩ | ⟨-, hp⟩⟩⟩ :=
    patch_cases h base mutated <;> rw [hp]
  · exact .idle _
  · exact .idle _
  · rw [find?_drop]
    split
    · rename_i hbase
      rw [hbase, hacc.found]
      refine .released rfl rfl ?_ ?_
      · simpa [isDeleting, Metadata.isDeleting, raised, merged, withServerFields] using hdeleting
      · simpa [raised, merged, withServerFields] using hbare
    · exact .idle _
  · rw [find?_put, key_raised, key_merged, hkey]
    split
    · rename_i hbase
      rw [hbase, hacc.found]
      have hspec : spec (raised (merged mutated current) changed) = spec mutated := by
        simp [raised, merged, withServerFields]
      refine .written ?_ ?_ ?_ ?_ ?_ (hspec ▸ hfixed)
      · simp [raised, merged, withServerFields]
      · simp [raised, merged, withServerFields]
      · simp [raised, merged, withServerFields]
      · simp [raised, merged, withServerFields]
      · rw [hspec]
        by_cases hsame : spec mutated = spec current
        · rw [if_pos hsame, Bool.eq_false_iff.2 fun ht => hchanged.1 ht hsame]
          simp [raised, merged, withServerFields]
        · rw [if_neg hsame, hchanged.2 hsame]
          simp [raised, merged, withServerFields]
    · exact .idle _

theorem passage_updateStatus (h : s.SoundFor k.Object) (o : k.Object) (key : Key) :
    Passage k key (.updateStatus k o) now (s.find? k.Object key)
      ((s.updateStatus o).store.find? k.Object key) := by
  obtain ⟨e, hp⟩ | ⟨current, hacc, ⟨-, hp⟩ | ⟨next, rfl, -, hp⟩⟩ := updateStatus_cases h o <;>
    rw [hp]
  · exact .idle _
  · exact .idle _
  · rw [find?_put, key_raised, key_withStatus, (h.proper hacc.found).key_eq]
    split
    · rename_i hkey
      rw [hkey, hacc.found]
      exact .written (by simp [raised]) (by simp [raised]) (by simp [raised]) (by simp [raised])
        (by simp [raised]) fun _ => by simp [raised]
    · exact .idle _

theorem passage_delete (h : s.SoundFor k.Object) (key key' : Key) (now : Time) :
    Passage k key (.delete k key') now (s.find? k.Object key)
      ((s.delete k.Object key' now).store.find? k.Object key) := by
  obtain ⟨e, hp⟩ | ⟨current, hf, ⟨-, hp⟩ | ⟨hbare, hp⟩ | ⟨hheld, hlive, hp⟩⟩ :=
    delete_cases h key' now <;> rw [hp]
  · exact .idle _
  · exact .idle _
  · rw [find?_drop]
    split
    · rename_i hkey
      subst hkey
      rw [hf]
      exact .deleted rfl hbare
    · exact .idle _
  · rw [find?_put, key_marked, (h.proper hf).key_eq]
    split
    · rename_i hkey
      subst hkey
      rw [hf]
      exact .marked rfl hheld hlive
    · exact .idle _

theorem passage_serve (h : s.Sound) (r : Request) (now : Time) (k : Kind) (key : Key) :
    Passage k key r now (s.find? k.Object key) ((r.serve now s).find? k.Object key) := by
  by_cases hk : k = r.kind
  · subst hk
    cases r with
    | get k key' => exact .idle _
    | list k => exact .idle _
    | create k object => exact passage_create s now object key
    | patch k base mutated => exact passage_patch (h k) base mutated key
    | updateStatus k object => exact passage_updateStatus (h k) object key
    | delete k key' => exact passage_delete (h k) key key' now
  · rw [(r.wrote_serve h now).find?_other (Kind.kind_ne hk)]
    exact .idle _

/-- How many requests change what is read of a store. -/
def alterations {β : Type} [DecidableEq β] (read : Store → β) (s : Store) :
    List (Request × Time) → Nat
  | [] => 0
  | (r, now) :: rest =>
    (if read (r.serve now s) = read s then 0 else 1) + alterations read (r.serve now s) rest

theorem read_after {β : Type} [DecidableEq β] {read : Store → β} :
    ∀ {s : Store} {requests : List (Request × Time)}, alterations read s requests = 0 →
      read (s.after requests) = read s
  | _, [], _ => rfl
  | s, (r, now) :: rest, h => by
    rw [alterations, Nat.add_eq_zero_iff] at h
    obtain ⟨hfirst, hrest⟩ := h
    rw [after, read_after hrest]
    by_contra hne
    simp [hne] at hfirst

/-- An object has been written fewer times than there were requests. -/
structure Aged (n : Nat) (o : k.Object) : Prop where
  generation_le : (metadata o).generation.toNat ≤ (metadata o).resourceVersion.toNat
  version_le : (metadata o).resourceVersion.toNat ≤ n

theorem Aged.mono {n m : Nat} (h : Aged n o) (hle : n ≤ m) : Aged m o :=
  ⟨h.generation_le, Nat.le_trans h.version_le hle⟩

/-- An object has become another one in so many changes, so many of which changed its spec. -/
structure Grown (changes specChanges : Nat) (o o' : k.Object) : Prop where
  creation : (metadata o').creationTime = (metadata o).creationTime
  version : (metadata o').resourceVersion.toNat = (metadata o).resourceVersion.toNat + changes
  generation : (metadata o').generation.toNat = (metadata o).generation.toNat + specChanges
  deletion : ∀ time, (metadata o).deletionTime = some time →
    (metadata o').deletionTime = some time
  fixed : immutableSpec k.Object = true → spec o' = spec o ∧ specChanges = 0

namespace Grown

variable {a b c d : Nat} {p : k.Object}

theorem refl (o : k.Object) : Grown 0 0 o o :=
  ⟨rfl, rfl, rfl, fun _ => id, fun _ => ⟨rfl, rfl⟩⟩

theorem trans (h : Grown a b o o') (h' : Grown c d o' p) : Grown (a + c) (b + d) o p where
  creation := h'.creation.trans h.creation
  version := by rw [h'.version, h.version, Nat.add_assoc]
  generation := by rw [h'.generation, h.generation, Nat.add_assoc]
  deletion time ht := h'.deletion time (h.deletion time ht)
  fixed him := by
    obtain ⟨hspec, rfl⟩ := h.fixed him
    obtain ⟨hspec', rfl⟩ := h'.fixed him
    exact ⟨hspec'.trans hspec, rfl⟩

end Grown

namespace Passage

variable {n : Nat} {before behind : Option k.Object}

theorem aged (h : Passage k key r now before behind) (hn : n + 1 < 2 ^ 64)
    (hbefore : ∀ o, before = some o → Aged n o) : ∀ o, behind = some o → Aged (n + 1) o := by
  intro o ho
  cases h with
  | idle => exact (hbefore o ho).mono (Nat.le_succ n)
  | born =>
    obtain rfl := Option.some.inj ho
    constructor <;> simp [stamped]
  | @written previous next _ _ _ version generation =>
    obtain rfl := Option.some.inj ho
    have hage := hbefore previous rfl
    have hversion := toNat_raised hage.version_le hn
    have hgeneration := toNat_raised (Nat.le_trans hage.generation_le hage.version_le) hn
    constructor
    · rw [version, generation, hversion]
      split
      · exact Nat.le_succ_of_le hage.generation_le
      · rw [hgeneration]
        exact Nat.succ_le_succ hage.generation_le
    · rw [version, hversion]
      exact Nat.succ_le_succ hage.version_le
  | @marked previous =>
    obtain rfl := Option.some.inj ho
    have hage := hbefore previous rfl
    have hversion := toNat_raised hage.version_le hn
    constructor
    · simpa [Store.marked, raised, hversion] using Nat.le_succ_of_le hage.generation_le
    · simpa [Store.marked, raised, hversion] using hage.version_le
  | deleted => cases ho
  | released => cases ho

theorem grown {next : k.Object} (h : Passage k key r now (some o) (some next))
    (hn : n + 1 < 2 ^ 64) (hage : Aged n o) :
    Grown (if next = o then 0 else 1) (if spec next = spec o then 0 else 1) o next := by
  have hversion := toNat_raised hage.version_le hn
  have hother : (metadata next).resourceVersion = (metadata o).resourceVersion + 1 → next ≠ o := by
    rintro hraised rfl
    have hsame := congrArg UInt64.toNat hraised
    omega
  cases h with
  | idle => exact ⟨rfl, by simp, by simp, fun _ => id, by simp⟩
  | written _ creation deletion version generation fixed =>
    refine ⟨creation, ?_, ?_, fun _ ht => deletion.trans ht, fun him => ⟨fixed him, ?_⟩⟩
    · rw [if_neg (hother version), version, hversion]
    · rw [generation]
      split
      · rfl
      · exact toNat_raised (Nat.le_trans hage.generation_le hage.version_le) hn
    · rw [if_pos (fixed him)]
  | marked _ _ live =>
    refine ⟨by simp [Store.marked, raised], ?_, by simp [Store.marked, raised], ?_, ?_⟩
    · rw [if_neg (hother (by simp [Store.marked, raised]))]
      simpa [Store.marked, raised] using hversion
    · intro time ht
      simp [isDeleting, Metadata.isDeleting, ht] at live
    · intro _
      simp [Store.marked, raised]

end Passage

theorem aged_after : ∀ {s : Store} {n : Nat} (requests : List (Request × Time)), s.Sound →
    n + requests.length < 2 ^ 64 → (∀ o : k.Object, s.find? k.Object key = some o → Aged n o) →
    ∀ o : k.Object, (s.after requests).find? k.Object key = some o → Aged (n + requests.length) o
  | _, _, [], _, _, h => h
  | s, n, (r, now) :: rest, hs, hn, h => by
    rw [List.length_cons, ← Nat.add_assoc, Nat.add_right_comm] at hn ⊢
    exact aged_after rest (r.sound_serve hs now) hn
      ((passage_serve hs r now k key).aged (by omega) h)

theorem aged_of_requests {requests : List (Request × Time)} (hn : requests.length < 2 ^ 64)
    (h : (empty.after requests).find? k.Object key = some o) : Aged requests.length o := by
  have haged := aged_after (n := 0) requests Sound.empty (by omega)
    (fun o ho => by simp [find?, value?, empty] at ho) o h
  rwa [Nat.zero_add] at haged

/-- An object that is stored all along has grown by what the requests changed of it. -/
theorem grown_after : ∀ {s : Store} {n : Nat} {o o' : k.Object} (requests : List (Request × Time)),
    s.Sound → n + requests.length < 2 ^ 64 → Aged n o → s.find? k.Object key = some o →
    (s.after requests).find? k.Object key = some o' →
    (∀ front, front <+: requests → (s.after front).find? k.Object key ≠ none) →
    Grown (s.alterations (·.find? k.Object key) requests)
      (s.alterations (fun t => (t.find? k.Object key).map spec) requests) o o'
  | s, n, o, o', [], _, _, _, hf, hf', _ => by
    obtain rfl := Option.some.inj (hf.symm.trans hf')
    exact .refl o
  | s, n, o, o', (r, now) :: rest, hs, hn, hage, hf, hf', hstored => by
    rw [List.length_cons] at hn
    obtain ⟨d, hd⟩ := Option.ne_none_iff_exists'.1 (hstored [(r, now)] (by simp))
    have hd : (r.serve now s).find? k.Object key = some d := hd
    have hpassage := passage_serve hs r now k key
    rw [hf, hd] at hpassage
    have hage' := hpassage.aged (by omega) (fun o ho => Option.some.inj ho ▸ hage) d rfl
    have hgrown := (hpassage.grown (by omega) hage).trans
      (grown_after (n := n + 1) rest (r.sound_serve hs now) (by omega) hage' hd hf'
        fun front hfront => hstored ((r, now) :: front) (List.cons_prefix_cons.2 ⟨rfl, hfront⟩))
    simpa only [alterations, hd, hf, Option.map_some, Option.some.injEq] using hgrown

/-- An object lives on through some requests, and is a later version of itself at the end. -/
structure Continues (s : Store) (key : Key) (requests : List (Request × Time))
    (o o' : k.Object) : Prop where
  /-- It never leaves the store. -/
  stored : ∀ front, front <+: requests →
    ∃ d, (s.after front).find? k.Object key = some d ∧ (metadata d).uid = (metadata o).uid
  /-- Its version counts its changes, its generation those of its spec. -/
  grown : Grown (s.alterations (·.find? k.Object key) requests)
    (s.alterations (fun t => (t.find? k.Object key).map spec) requests) o o'
  same : (metadata o').resourceVersion = (metadata o).resourceVersion → o' = o
  steady : k = .registration → spec o' = spec o ∧
    (metadata o').generation = (metadata o).generation ∧ k.hostname? o' = k.hostname? o

theorem issued_le_after : ∀ {s : Store} (requests : List (Request × Time)), s.Sound →
    s.issued ≤ (s.after requests).issued
  | _, [], _ => Nat.le_refl _
  | _, (r, now) :: rest, hs =>
    Nat.le_trans (r.issued_le_serve hs now) (issued_le_after rest (r.sound_serve hs now))

/-- An object with the uid of an earlier one has been there all the time. -/
theorem stored_of_uid_eq (hs : s.Sound) (hissued : Issued s.issued (s.find? k.Object key))
    {requests : List (Request × Time)} (hf : s.find? k.Object key = some o)
    (hf' : (s.after requests).find? k.Object key = some o')
    (huid : (metadata o').uid = (metadata o).uid) {front : List (Request × Time)}
    (hfront : front <+: requests) :
    ∃ d, (s.after front).find? k.Object key = some d ∧ (metadata d).uid = (metadata o).uid := by
  obtain ⟨back, rfl⟩ := hfront
  rcases living_or_younger front hs hf with ⟨d, n, hd, hduid, -⟩ | hyoung
  · exact ⟨d, hd, hduid⟩
  · rw [after_append] at hf'
    have hle : s.issued ≤ (s.after front).issued := issued_le_after front hs
    have hlater := youngerThan_after back (hs.after front) hle hyoung
    exact absurd huid (hlater.uid_ne hf' (hissued o hf))

/-- Of whatever is stored, each request makes what its kind of call may make. Two objects of one key
and uid in two states of a run are one object, the later a later version of the earlier. -/
theorem continues_of_uid_eq (front between : List (Request × Time))
    (short : (front ++ between).length < 2 ^ 64) (k : Kind) (key : Key) :
    (∀ r now, Passage k key r now ((empty.after front).find? k.Object key)
      ((r.serve now (empty.after front)).find? k.Object key)) ∧
    ∀ o o', (empty.after front).find? k.Object key = some o →
      (empty.after (front ++ between)).find? k.Object key = some o' →
      (metadata o').uid = (metadata o).uid → Continues (empty.after front) key between o o' := by
  have hs : (empty.after front).Sound := Sound.empty.after front
  refine ⟨fun r now => passage_serve hs r now k key, fun o o' hf hf' huid => ?_⟩
  rw [List.length_append] at short
  rw [after_append] at hf'
  have hissued : Issued (empty.after front).issued ((empty.after front).find? k.Object key) :=
    issued_of_reachable ⟨front, rfl⟩
  have hstored := fun front' (hfront : front' <+: between) =>
    stored_of_uid_eq hs hissued hf hf' huid hfront
  have hgrown := grown_after between hs short (aged_of_requests (by omega) hf) hf hf'
    fun front' hfront => by
      obtain ⟨d, hd, -⟩ := hstored front' hfront
      simp [hd]
  refine ⟨hstored, hgrown, fun hversion => ?_, fun hregistration => ?_⟩
  · have hsame : (empty.after front).alterations (·.find? k.Object key) between = 0 := by
      have hcount := hgrown.version
      rw [hversion] at hcount
      omega
    exact Option.some.inj (hf'.symm.trans ((read_after hsame).trans hf))
  · have hkey : Resource.key o' = Resource.key o := by
      rw [((hs k).proper hf).key_eq, (((hs.after between) k).proper hf').key_eq]
    obtain ⟨hspec, hzero⟩ := hgrown.fixed (by subst hregistration; rfl)
    have hgeneration := hgrown.generation
    rw [hzero, Nat.add_zero] at hgeneration
    exact ⟨hspec, UInt64.toNat_inj.1 hgeneration, Kind.hostname?_eq hkey hspec⟩

/-- A domain with a finalizer as it is first stored. -/
def heldDomain : Domain :=
  stamped { metadata := { name := "example.org", finalizers := ["hold"] } } (Uid.nth 1) .epoch

/-- The same domain with a key for verification, in its second version and generation. -/
def heldKeyedDomain : Domain :=
  raised { heldDomain with spec.verificationKey := some "key" } true

/-- The domain gets its key and is deleted. -/
def keyedAndDeleted : List (Request × Time) :=
  [(.patch .domain heldDomain heldKeyedDomain, .epoch),
    (.delete .domain { name := "example.org" }, .epoch)]

theorem heldDomain_continues :
    ([(Request.create .domain heldDomain, Time.epoch)] ++ keyedAndDeleted).length < 2 ^ 64 ∧
    Continues (k := .domain) (empty.after [(.create .domain heldDomain, .epoch)])
      { name := "example.org" } keyedAndDeleted heldDomain (marked heldKeyedDomain .epoch) :=
  ⟨by decide,
    (continues_of_uid_eq [(.create .domain heldDomain, .epoch)] keyedAndDeleted (by decide) .domain
      { name := "example.org" }).2 heldDomain (marked heldKeyedDomain .epoch) (by decide +kernel)
      (by decide +kernel) rfl⟩

end Store

end Registrar
