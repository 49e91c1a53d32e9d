import Simutrace.Library.Halting
import Simutrace.Store.DirectoryWalk
import Simutrace.Store.Mapping
import Mathlib.Data.Finite.Prod

/-! # Following the directories of any file

The directories are followed from slot to slot as the file has them, and a link
may lead to any position of the file. Opening a store ends unless the slots lead
back to one of them and the frames on the way there can be opened again and
again.
-/

namespace Simutrace.Simtrace3

structure Place where
  directory : FileOffset
  index : ℕ
  deriving DecidableEq, Repr

/-- The slot that is looked at next and the state of the store. -/
structure Walk (σ : Type) where
  place : Place
  store : σ

namespace StoreFile

variable {σ : Type} (f : StoreFile) (sys : System) (openFrame : σ → FrameHeaderLink → Option σ)

def mapDirectory (offset : FileOffset) : Bool :=
  (mapSegment sys f.storage.size offset
    (.ofNat 64 (f.header.directoryCapacity * directoryEntrySize))).isSome

/-- Process the entry of a slot. A failure closes the store, and a slot that is free ends it. -/
def openSlot (w : Walk σ) : Option σ ⊕ Walk σ :=
  let ⟨⟨directory, index⟩, store⟩ := w
  if f.header.directoryCapacity ≤ index then .inl none
  else
    match slot f.storage directory.toNat index with
    | .framelink link =>
      match openFrame store link with
      | none => .inl none
      | some store => .inr ⟨⟨directory, index + 1⟩, store⟩
    | .directoryLink next =>
      if f.mapDirectory sys next then .inr ⟨⟨next, 0⟩, store⟩ else .inl none
    | .free => .inl (some store)

def openFirst (store : σ) : Option σ ⊕ Walk σ :=
  if f.header.directoryCount = 0 then .inl (some store)
  else
    let offset := f.header.directories 0
    if offset = 0 then .inl none
    else if f.mapDirectory sys offset then .inr ⟨⟨offset, 0⟩, store⟩ else .inl none

def OpenEnds (store : σ) : Prop :=
  ∀ w, f.openFirst sys store = .inr w → Halting.Halts (f.openSlot sys openFrame) w

/-! ## The slots alone -/

/-- Following the slots as many times as given leads over the given frames to another slot. -/
inductive Leads : ℕ → Place → List FrameHeaderLink → Place → Prop
  | here (p : Place) : Leads 0 p [] p
  | frame {n directory index link fs q} (bound : index < f.header.directoryCapacity)
      (entry : slot f.storage directory.toNat index = .framelink link)
      (rest : Leads n ⟨directory, index + 1⟩ fs q) :
      Leads (n + 1) ⟨directory, index⟩ (link :: fs) q
  | link {n directory index next fs q} (bound : index < f.header.directoryCapacity)
      (entry : slot f.storage directory.toNat index = .directoryLink next)
      (mapped : f.mapDirectory sys next) (rest : Leads n ⟨next, 0⟩ fs q) :
      Leads (n + 1) ⟨directory, index⟩ fs q

/-- The slots lead from the given one to a slot that they lead back to, and the frames on the way
there can be opened, those between the two visits any number of times. -/
def Revolves (p : Place) (store : σ) : Prop :=
  ∃ m n fs gs q, f.Leads sys m p fs q ∧ f.Leads sys (n + 1) q gs q ∧
    ∀ k, (fs ++ (List.replicate k gs).flatten).foldlM openFrame store ≠ none

variable {f sys openFrame} {m n : ℕ} {p q r : Place} {fs gs : List FrameHeaderLink}
  {store store' : σ}

theorem Leads.trans (h : f.Leads sys m p fs q) (h' : f.Leads sys n q gs r) :
    f.Leads sys (m + n) p (fs ++ gs) r := by
  induction h with
  | here p =>
    rw [Nat.zero_add]
    exact h'
  | frame bound entry _ ih =>
    rw [Nat.succ_add]
    exact .frame bound entry (ih h')
  | link bound entry mapped _ ih =>
    rw [Nat.succ_add]
    exact .link bound entry mapped (ih h')

theorem Leads.replicate (h : f.Leads sys n q gs q) (k : ℕ) :
    f.Leads sys (k * n) q (List.replicate k gs).flatten q := by
  induction k with
  | zero =>
    rw [Nat.zero_mul]
    exact .here q
  | succ k ih =>
    rw [Nat.succ_mul, Nat.add_comm, List.replicate_succ, List.flatten_cons]
    exact h.trans ih

theorem Leads.unique (h : f.Leads sys n p fs q) (h' : f.Leads sys n p gs r) :
    fs = gs ∧ q = r := by
  induction h generalizing gs r with
  | here p =>
    cases h'
    exact ⟨rfl, rfl⟩
  | frame _ entry _ ih =>
    cases h' with
    | frame _ entry' rest' =>
      obtain rfl := FrameDirectoryEntry.framelink.inj (entry.symm.trans entry')
      obtain ⟨rfl, rfl⟩ := ih rest'
      exact ⟨rfl, rfl⟩
    | link _ entry' => cases entry.symm.trans entry'
  | link _ entry _ _ ih =>
    cases h' with
    | frame _ entry' => cases entry.symm.trans entry'
    | link _ entry' _ rest' =>
      obtain rfl := FrameDirectoryEntry.directoryLink.inj (entry.symm.trans entry')
      exact ih rest'

theorem Leads.run (h : f.Leads sys n p fs q) (hs : fs.foldlM openFrame store = some store') :
    Halting.run (f.openSlot sys openFrame) n ⟨p, store⟩ = .inr ⟨q, store'⟩ := by
  induction h generalizing store with
  | here p =>
    obtain rfl := Option.some.inj hs
    rfl
  | @frame n directory index link fs q bound entry rest ih =>
    rw [List.foldlM_cons, Option.bind_eq_bind, Option.bind_eq_some_iff] at hs
    obtain ⟨store₁, hlink, hs⟩ := hs
    have hstep : f.openSlot sys openFrame ⟨⟨directory, index⟩, store⟩ =
        .inr ⟨⟨directory, index + 1⟩, store₁⟩ := by
      simp only [openSlot, if_neg (Nat.not_le.mpr bound), entry, hlink]
    rw [Halting.run_succ_of_next hstep]
    exact ih hs
  | @link n directory index next fs q bound entry mapped rest ih =>
    have hstep : f.openSlot sys openFrame ⟨⟨directory, index⟩, store⟩ =
        .inr ⟨⟨next, 0⟩, store⟩ := by
      simp only [openSlot, if_neg (Nat.not_le.mpr bound), entry, if_pos mapped]
    rw [Halting.run_succ_of_next hstep]
    exact ih hs

/-- Each step of the walk that does not end it follows a slot. -/
theorem exists_leads_of_openSlot {w w' : Walk σ} (h : f.openSlot sys openFrame w = .inr w') :
    ∃ fs, f.Leads sys 1 w.place fs w'.place ∧ fs.foldlM openFrame w.store = some w'.store := by
  obtain ⟨⟨directory, index⟩, store⟩ := w
  unfold openSlot at h
  dsimp only at h
  split_ifs at h with hi
  have hb := Nat.not_le.mp hi
  cases he : slot f.storage directory.toNat index with
  | free => simp [he] at h
  | framelink link =>
    cases ho : openFrame store link with
    | none => simp [he, ho] at h
    | some store₁ =>
      simp only [he, ho, Sum.inr.injEq] at h
      subst h
      exact ⟨[link], .frame hb he (.here _), by simp [ho]⟩
  | directoryLink next =>
    simp only [he] at h
    split_ifs at h with hm
    obtain rfl := Sum.inr.inj h
    exact ⟨[], .link hb he hm (.here _), rfl⟩

theorem exists_leads_of_run {w w' : Walk σ}
    (h : Halting.run (f.openSlot sys openFrame) n w = .inr w') :
    ∃ fs, f.Leads sys n w.place fs w'.place ∧ fs.foldlM openFrame w.store = some w'.store := by
  induction n generalizing w with
  | zero =>
    obtain rfl := Sum.inr.inj h
    exact ⟨[], .here _, rfl⟩
  | succ n ih =>
    cases hs : f.openSlot sys openFrame w with
    | inl r =>
      rw [Halting.run_succ_of_result hs] at h
      cases h
    | inr w₁ =>
      rw [Halting.run_succ_of_next hs] at h
      obtain ⟨fs, hl, hf⟩ := exists_leads_of_openSlot hs
      obtain ⟨gs, hl', hg⟩ := ih h
      refine ⟨fs ++ gs, ?_, ?_⟩
      · rw [Nat.add_comm]
        exact hl.trans hl'
      · rw [List.foldlM_append, hf]
        exact hg

/-! ## Walks that do not end -/

theorem Revolves.not_halts (h : f.Revolves sys openFrame p store) :
    ¬ Halting.Halts (f.openSlot sys openFrame) ⟨p, store⟩ := by
  obtain ⟨m, n, fs, gs, q, hfs, hgs, hopen⟩ := h
  apply Halting.not_halts_of_unbounded
  intro k
  obtain ⟨store', hs⟩ := Option.ne_none_iff_exists'.mp (hopen k)
  have hle : k ≤ m + k * (n + 1) :=
    (Nat.le_mul_of_pos_right k (Nat.succ_pos n)).trans (Nat.le_add_left _ _)
  exact ⟨_, _, hle, (hfs.trans (hgs.replicate k)).run hs⟩

theorem index_lt_of_run {w w' : Walk σ}
    (h : Halting.run (f.openSlot sys openFrame) (n + 1) w = .inr w') :
    w.place.index < f.header.directoryCapacity := by
  obtain ⟨⟨directory, index⟩, store⟩ := w
  by_contra hi
  have hstep : f.openSlot sys openFrame ⟨⟨directory, index⟩, store⟩ = .inl none := by
    simp only [openSlot, if_pos (Nat.not_lt.mp hi)]
  rw [Halting.run_succ_of_result hstep] at h
  cases h

theorem revolves_of_not_halts
    (h : ¬ Halting.Halts (f.openSlot sys openFrame) ⟨p, store⟩) :
    f.Revolves sys openFrame p store := by
  have hruns := Halting.not_halts_iff.mp h
  obtain ⟨m, n, w, w', hm, hn, hplace⟩ := Halting.exists_return (fun w : Walk σ =>
    (w.place.directory.toFin, Fin.ofNat (f.header.directoryCapacity + 1) w.place.index)) h
  have hbound := index_lt_of_run hn
  have hbound' : w'.place.index < f.header.directoryCapacity := by
    obtain ⟨t, ht⟩ := hruns (m + (n + 1) + 1)
    rw [Nat.add_assoc, Halting.run_add hm, Halting.run_add hn] at ht
    exact index_lt_of_run ht
  have hsame : w'.place = w.place := by
    obtain ⟨hd, hi⟩ := Prod.mk.inj hplace
    have hi := congrArg Fin.val hi
    simp only [Fin.val_ofNat] at hi
    rw [Nat.mod_eq_of_lt (by omega), Nat.mod_eq_of_lt (by omega)] at hi
    obtain ⟨⟨directory, index⟩, store⟩ := w
    obtain ⟨⟨directory', index'⟩, store'⟩ := w'
    exact Place.mk.injEq .. ▸ ⟨BitVec.toFin_inj.mp hd.symm, hi.symm⟩
  obtain ⟨fs, hfs, -⟩ := exists_leads_of_run hm
  obtain ⟨gs, hgs, -⟩ := exists_leads_of_run hn
  rw [hsame] at hgs
  refine ⟨m, n, fs, gs, w.place, hfs, hgs, fun k hnone => ?_⟩
  obtain ⟨t, ht⟩ := hruns (m + k * (n + 1))
  obtain ⟨hs, hleads, hopen⟩ := exists_leads_of_run ht
  obtain ⟨rfl, -⟩ := (hfs.trans (hgs.replicate k)).unique hleads
  rw [hopen] at hnone
  cases hnone

/-- Opening a store ends if and only if the slots do not lead back to one of them over frames that
can be opened again and again. -/
theorem openEnds_iff (f : StoreFile) (sys : System)
    (openFrame : σ → FrameHeaderLink → Option σ) (store : σ) :
    f.OpenEnds sys openFrame store ↔
      ∀ w, f.openFirst sys store = .inr w → ¬ f.Revolves sys openFrame w.place w.store := by
  constructor
  · intro h w hw hrev
    exact hrev.not_halts (h w hw)
  · intro h w hw
    by_contra hh
    exact h w hw (revolves_of_not_halts hh)

/-- A store that opens when all its directories are mapped does not keep the walk going. -/
theorem halts_of_walk {assertions : Bool} {directory : FileOffset} {index fuel : ℕ}
    (h : f.walk assertions openFrame fuel directory.toNat index store = some store') :
    Halting.Halts (f.openSlot sys openFrame) ⟨⟨directory, index⟩, store⟩ := by
  suffices hr : ∃ r, Halting.run (f.openSlot sys openFrame) fuel ⟨⟨directory, index⟩, store⟩ =
      .inl r from ⟨fuel, hr⟩
  induction fuel generalizing directory index store with
  | zero => cases h
  | succ fuel ih =>
    rw [walk] at h
    by_cases hi : f.header.directoryCapacity ≤ index
    · rw [if_pos hi] at h
      cases h
    rw [if_neg hi] at h
    cases he : slot f.storage directory.toNat index with
    | free =>
      refine ⟨some store, Halting.run_succ_of_result ?_ _⟩
      simp only [openSlot, if_neg hi, he]
    | framelink link =>
      simp only [he] at h
      obtain ⟨store₁, ho, hw⟩ := Option.bind_eq_some_iff.mp h
      have hstep : f.openSlot sys openFrame ⟨⟨directory, index⟩, store⟩ =
          .inr ⟨⟨directory, index + 1⟩, store₁⟩ := by
        simp only [openSlot, if_neg hi, he, ho]
      rw [Halting.run_succ_of_next hstep]
      exact ih hw
    | directoryLink next =>
      simp only [he] at h
      by_cases hm : f.mapDirectory sys next = true
      · have hstep : f.openSlot sys openFrame ⟨⟨directory, index⟩, store⟩ =
            .inr ⟨⟨next, 0⟩, store⟩ := by
          simp only [openSlot, if_neg hi, he, if_pos hm]
        rw [Halting.run_succ_of_next hstep]
        exact ih h
      · refine ⟨none, Halting.run_succ_of_result ?_ _⟩
        simp only [openSlot, if_neg hi, he, if_neg hm]

/-- A store whose directories are walked to the end is one whose opening ends. -/
theorem openEnds_of_openStore {assertions : Bool} {fuel : ℕ}
    (h : f.openStore assertions openFrame fuel store = some store') :
    f.OpenEnds sys openFrame store := by
  intro w hw
  unfold openFirst at hw
  unfold openStore at h
  split_ifs at h hw with hcount
  dsimp only at h hw
  split_ifs at h hw
  obtain rfl := Sum.inr.inj hw
  exact halts_of_walk h

/-! ## A directory that links to itself -/

def selfLinked : StoreFile where
  header := { SimtraceV3Header.init with directoryCount := 1, directories := fun _ => 4096 }
  storage := { Storage.empty with size := 4096 + directorySize * directoryEntrySize }.write 4096
    (LittleEndian.bytes 4 directoryLinkMarker ++ List.replicate 4 0 ++
      LittleEndian.ofWord (4096 : BitVec 64))

/-- The walk stays in the first slot of the directory. -/
theorem not_openEnds_selfLinked :
    ¬ selfLinked.OpenEnds ⟨4096, fun _ _ => true⟩ (fun (s : Unit) _ => some s) () := by
  have hslot : slot selfLinked.storage 4096 0 = .directoryLink 4096 := by decide
  have hmap : selfLinked.mapDirectory ⟨4096, fun _ _ => true⟩ 4096 = true := by decide
  have hfirst : selfLinked.openFirst ⟨4096, fun _ _ => true⟩ () = .inr ⟨⟨4096, 0⟩, ()⟩ := by
    simp only [openFirst]
    exact if_neg (by decide) |>.trans (if_neg (by decide) |>.trans (if_pos hmap))
  intro h
  refine Revolves.not_halts ⟨0, 0, [], [], ⟨4096, 0⟩, .here _, ?_, fun k => ?_⟩ (h _ hfirst)
  · exact .link (by decide) hslot hmap (.here _)
  · simp

end StoreFile

end Simutrace.Simtrace3
