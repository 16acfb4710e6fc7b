import Ctcp.Model.Client
import Ctcp.Verification.Decoder.Substitution
import Ctcp.Verification.Stream

/-! # Handing decoded rows to the application -/

namespace Ctcp

open Function Program

/-! ## Bytes that reach `usr_cache` -/

/-- The bytes accepted by the calls of a trace. -/
def pushedBytes (t : List (FifoCall × ℕ)) : List UInt8 :=
  t.flatMap fun c =>
    match c.1 with
    | .push bytes => bytes.take c.2
    | .getspace => []

@[simp] theorem pushedBytes_nil : pushedBytes [] = [] := rfl

@[simp] theorem pushedBytes_push (bytes : List UInt8) (r : ℕ) (t : List (FifoCall × ℕ)) :
    pushedBytes ((.push bytes, r) :: t) = bytes.take r ++ pushedBytes t := rfl

@[simp] theorem pushedBytes_getspace (r : ℕ) (t : List (FifoCall × ℕ)) :
    pushedBytes ((.getspace, r) :: t) = pushedBytes t := rfl

@[simp] theorem pushedBytes_append (t t' : List (FifoCall × ℕ)) :
    pushedBytes (t ++ t') = pushedBytes t ++ pushedBytes t' := List.flatMap_append

/-- Replies under which a push may return 0, as it does once the buffer is released. -/
def Refused (allow : FifoCall → ℕ → Prop) : Prop := ∃ bytes, bytes ≠ [] ∧ allow (.push bytes) 0

variable {allow : FifoCall → ℕ → Prop}

/-- All bytes are pushed, in order, unless a push is refused. -/
theorem pushBytes_spec {fuel : ℕ} {bytes : List UInt8} (hfuel : bytes.length ≤ fuel) :
    (pushBytes fuel bytes).Ensures allow fun t ok =>
      (ok = true ∧ pushedBytes t = bytes) ∨ (ok = false ∧ Refused allow) := by
  induction fuel generalizing bytes with
  | zero =>
      have hnil : bytes = [] := List.length_eq_zero_iff.mp (Nat.le_zero.mp hfuel)
      exact .inl ⟨rfl, hnil ▸ rfl⟩
  | succ fuel ih =>
      by_cases hnil : bytes = []
      · rw [pushBytes, if_pos hnil]
        exact .inl ⟨rfl, hnil ▸ rfl⟩
      · rw [pushBytes, if_neg hnil]
        intro r hr
        beta_reduce
        by_cases hzero : r = 0
        · subst hzero
          exact .inr ⟨rfl, bytes, hnil, hr⟩
        · rw [if_neg hzero]
          refine (@ih (bytes.drop r) (by rw [List.length_drop]; omega)).mono
            fun t ok h => h.imp (fun h => ⟨h.1, ?_⟩) fun h => h
          rw [pushedBytes_push, h.2, List.take_append_drop]

/-! ## `partial_write` -/

variable {blk blk' : CodedBlock} {p : ℕ → Payload} {rm : Residue}

theorem BlockShape.setPushed (h : BlockShape blk) {s : ℕ} (hs : s ≤ blockSize)
    (hdec : ∀ r < s, blk.Decoded r) : BlockShape { blk with dofsPushed := s } :=
  { h with pushed_le := hs, pushed := hdec }

/-- What the push loop leaves: the rows from `start` up to the new `dofsPushed`
have gone out, unless a push was refused. -/
inductive PushSpec (allow : FifoCall → ℕ → Prop) (blk : CodedBlock) (start : ℕ)
    (t : List (FifoCall × ℕ)) : CodedBlock → Prop where
  | refused (h : Refused allow) : PushSpec allow blk start t blk
  | stopped (s : ℕ) (hle : start ≤ s) (hs : s ≤ blockSize) (hdec : ∀ r < s, blk.Decoded r)
      (hout : ∀ p, BlockSound p blk → (∀ r < blockSize, (p r).Framed) →
        pushedBytes t = rowBytes p start (s - start)) :
      PushSpec allow blk start t { blk with dofsPushed := s }

theorem pushDecoded_spec (h : BlockShape blk) (hopen : ∃ r < blockSize, ¬blk.Occupied r)
    {fuel start : ℕ} (hfuel : blockSize < start + fuel) (hstart : start ≤ blockSize)
    (hdec : ∀ r < start, blk.Decoded r) :
    (pushDecoded rm blk fuel start).Ensures allow fun t res =>
      ∃ blk', res = some blk' ∧ PushSpec allow blk start t blk' := by
  induction fuel generalizing start with
  | zero => omega
  | succ fuel ih =>
      have hlt : start < blockSize := by
        obtain ⟨r, hr, hfree⟩ := hopen
        by_contra hge
        exact hfree (hdec r (by omega)).1
      rw [pushDecoded, if_neg (Nat.not_le.mpr hlt)]
      by_cases hready : blk.Decoded start
      · obtain ⟨content, hcontent⟩ := Option.isSome_iff_exists.mp (h.held start hlt hready.1)
        simp only [if_pos hready, hcontent]
        intro space _
        beta_reduce
        by_cases hspace : content.payloadLen ≤ space
        · rw [if_pos hspace]
          refine Ensures.bind (pushBytes_spec (Payload.length_data _ _).le) fun t ok hok => ?_
          rcases hok with ⟨rfl, hbytes⟩ | ⟨rfl, hrefused⟩
          · refine (@ih (start + 1) (by omega) hlt fun r hr => ?_).mono ?_
            · rcases Nat.lt_succ_iff_lt_or_eq.mp hr with hr | rfl
              · exact hdec r hr
              · exact hready
            · rintro t' res ⟨blk', rfl, hrefused | ⟨s, hle, hs, hall, hout⟩⟩
              · exact ⟨_, rfl, .refused hrefused⟩
              refine ⟨_, rfl, .stopped s (by omega) hs hall fun p hp hframed => ?_⟩
              obtain rfl : content = p start := Option.some.inj
                (hcontent.symm.trans (hp.content_of_decoded hready hlt))
              obtain ⟨n, rfl⟩ : ∃ n, s = start + 1 + n := ⟨s - (start + 1), by omega⟩
              rw [pushedBytes_getspace, pushedBytes_append, hbytes, hout p hp hframed,
                Nat.add_sub_cancel_left, Nat.add_assoc start, Nat.add_sub_cancel_left,
                Nat.add_comm 1 n, rowBytes_succ, Payload.bytes,
                (hframed start hlt).data_eq _ fun _ => 0]
          · exact ⟨blk, rfl, .refused hrefused⟩
        · rw [if_neg hspace]
          exact ⟨_, rfl, .stopped start le_rfl hstart hdec fun p _ _ => by simp [rowBytes]⟩
      · rw [if_neg hready]
        exact ⟨_, rfl, .stopped start le_rfl hstart hdec fun p _ _ => by simp [rowBytes]⟩

/-- The later block holds the same equations as the earlier one. -/
structure Kept (blk blk' : CodedBlock) : Prop where
  dofs_eq : blk'.dofs = blk.dofs
  index_eq : blk'.maxPacketIndex = blk.maxPacketIndex
  span_eq : blk'.span = blk.span
  sound : ∀ p, BlockSound p blk → BlockSound p blk'

theorem Kept.refl (blk : CodedBlock) : Kept blk blk := ⟨rfl, rfl, rfl, fun _ hp => hp⟩

theorem Kept.trans {blk blk₁ blk' : CodedBlock} (h : Kept blk blk₁) (h' : Kept blk₁ blk') :
    Kept blk blk' :=
  ⟨h'.dofs_eq.trans h.dofs_eq, h'.index_eq.trans h.index_eq, h'.span_eq.trans h.span_eq,
    fun p hp => h'.sound p (h.sound p hp)⟩

theorem Unwrapped.kept (h : BlockShape blk) (hun : Unwrapped 0 blk blk') : Kept blk blk' :=
  ⟨hun.dofs_eq, hun.index_eq, hun.span_eq h, hun.sound⟩

/-- A block after `partial_write`. -/
structure PartialSpec (allow : FifoCall → ℕ → Prop) (blk : CodedBlock)
    (t : List (FifoCall × ℕ)) (blk' : CodedBlock) : Prop where
  shape : BlockShape blk'
  kept : Kept blk blk'
  pushed_le : blk.dofsPushed ≤ blk'.dofsPushed
  out : Refused allow ∨ ∀ p, BlockSound p blk → (∀ r < blockSize, (p r).Framed) →
    pushedBytes t = rowBytes p blk.dofsPushed (blk'.dofsPushed - blk.dofsPushed)

theorem BlockShape.exists_free (h : BlockShape blk) (hopen : blk.dofs < blockSize) :
    ∃ r < blockSize, ¬blk.Occupied r := by
  by_contra hall
  push Not at hall
  have huniv : blk.occupied = Finset.univ :=
    Finset.eq_univ_of_forall fun r => CodedBlock.mem_occupied.mpr (hall r r.2)
  rw [h.dofs_eq, huniv, Finset.card_univ, Fintype.card_fin] at hopen
  exact hopen.false

theorem PushSpec.partialSpec (h : BlockShape blk) {t : List (FifoCall × ℕ)}
    (hpush : PushSpec allow blk blk.dofsPushed t blk') : PartialSpec allow blk t blk' := by
  cases hpush with
  | refused hrefused => exact ⟨h, .refl blk, le_rfl, .inl hrefused⟩
  | stopped s hle hs hdec hout =>
      have hshape := h.setPushed hs hdec
      exact ⟨hshape, ⟨rfl, rfl, rfl, fun p hp => ⟨hshape, hp.content_eq⟩⟩, hle, .inr hout⟩

theorem partialWrite_spec (h : BlockShape blk) (hopen : blk.dofs < blockSize) :
    (partialWrite rm blk).Ensures allow fun t res =>
      ∃ blk', res = some blk' ∧ PartialSpec allow blk t blk' := by
  have hpush : ∀ blk : CodedBlock, BlockShape blk → blk.dofs < blockSize →
      (pushDecoded rm blk (blockSize + 1) blk.dofsPushed).Ensures allow fun t res =>
        ∃ blk', res = some blk' ∧ PartialSpec allow blk t blk' := by
    intro blk h hopen
    refine (pushDecoded_spec h (h.exists_free hopen) (by omega) h.pushed_le h.pushed).mono ?_
    rintro t res ⟨blk', rfl, hspec⟩
    exact ⟨blk', rfl, hspec.partialSpec h⟩
  by_cases hfull : blk.dofs = blk.maxPacketIndex
  · obtain ⟨blk₁, heq, hun⟩ := unwrap_spec h hfull
    simp only [partialWrite, if_pos hfull, heq]
    refine (hpush blk₁ hun.shape (hun.dofs_eq ▸ hopen)).mono ?_
    rintro t res ⟨blk', rfl, hspec⟩
    refine ⟨blk', rfl, hspec.shape, (hun.kept h).trans hspec.kept,
      hun.pushed_eq ▸ hspec.pushed_le, ?_⟩
    refine hspec.out.imp id fun hout p hp hframed => ?_
    rw [hout p (hun.sound p hp) hframed, hun.pushed_eq]
  · simp only [partialWrite, if_neg hfull]
    exact hpush blk h hopen

/-! ## `writeAndFreeBlock` -/

theorem writeRows_spec (h : BlockShape blk) {n i : ℕ} (hn : i + n ≤ blockSize)
    (hdec : ∀ r, i ≤ r → r < i + n → blk.Decoded r) :
    (writeRows rm blk n i).Ensures allow fun t res => res = some () ∧
      (Refused allow ∨ ∀ p, BlockSound p blk → (∀ r < blockSize, (p r).Framed) →
        pushedBytes t = rowBytes p i n) := by
  induction n generalizing i with
  | zero => exact ⟨rfl, .inr fun p _ _ => rfl⟩
  | succ n ih =>
      have hlt : i < blockSize := by omega
      have hready := hdec i le_rfl (by omega)
      obtain ⟨content, hcontent⟩ := Option.isSome_iff_exists.mp (h.held i hlt hready.1)
      simp only [writeRows, hcontent]
      refine Ensures.bind (pushBytes_spec (Payload.length_data _ _).le) fun t ok hok => ?_
      rcases hok with ⟨rfl, hbytes⟩ | ⟨rfl, hrefused⟩
      · refine (ih (i := i + 1) (by omega) fun r hr hr' => hdec r (by omega) (by omega)).mono ?_
        rintro t' res ⟨rfl, hout⟩
        refine ⟨rfl, hout.imp id fun hout p hp hframed => ?_⟩
        obtain rfl : content = p i := Option.some.inj
          (hcontent.symm.trans (hp.content_of_decoded hready hlt))
        rw [pushedBytes_append, hbytes, hout p hp hframed, rowBytes_succ, Payload.bytes,
          (hframed i hlt).data_eq _ fun _ => 0]
      · exact ⟨rfl, .inl hrefused⟩

theorem writeAndFreeBlock_spec (h : BlockShape blk) (hdec : ∀ r < blockSize, blk.Decoded r) :
    (writeAndFreeBlock rm blk).Ensures allow fun t res => res = some () ∧
      (Refused allow ∨ ∀ p, BlockSound p blk → (∀ r < blockSize, (p r).Framed) →
        pushedBytes t = rowBytes p blk.dofsPushed (blockSize - blk.dofsPushed)) := by
  have hle := h.pushed_le
  rw [writeAndFreeBlock, h.len_eq]
  exact writeRows_spec h (by omega) fun r _ hr => hdec r (by omega)

end Ctcp
