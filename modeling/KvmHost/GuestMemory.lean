import KvmHost.Devices

/-!
# KvmHost.GuestMemory

What the devices leave of guest memory.

The handlers follow whatever the guest has put in its rings, and `DmaRanges` lists for each call
what it reaches for. Here the lists are shown to bound what it changes: a byte that is in none of
the ranges of a turn is the same after it (`Within`). Over a run of the machine, with all its
devices, a part of memory that no ring slot, event word or buffer of a handled descriptor meets is
only ever changed by the guest itself (`private_memory`), whatever the descriptors hold.
-/

namespace KvmHost

open ByteStore Stops Turns

def DmaRange.Has (r : DmaRange) (x : Nat) : Prop := r.start.Hits r.len x

/-- `ram'` is `ram` after writes inside `rs` only. -/
structure Ram.Within (rs : List DmaRange) (ram ram' : Ram) : Prop where
  base : ram'.base = ram.base
  frame : ∀ x, (∀ r ∈ rs, ¬ r.Has x) → ram'.bytes x = ram.bytes x

namespace Ram.Within

variable {rs us : List DmaRange} {ram ram' ram'' : Ram}

theorem refl (rs : List DmaRange) (ram : Ram) : ram.Within rs ram := ⟨rfl, fun _ _ => rfl⟩

theorem trans (h : ram.Within rs ram') (h' : ram'.Within rs ram'') : ram.Within rs ram'' where
  base := h'.base.trans h.base
  frame x hx := (h'.frame x hx).trans (h.frame x hx)

theorem mono (h : ram.Within rs ram') (hsub : rs ⊆ us) : ram.Within us ram' where
  base := h.base
  frame x hx := h.frame x fun r hr => hx r (hsub hr)

theorem of_changed {p : Ptr} {n : Nat} (h : ram.Changed p n ram') (hmem : ⟨p, n⟩ ∈ rs) :
    ram.Within rs ram' where
  base := h.base
  frame x hx := h.frame x (hx ⟨p, n⟩ hmem)

/-- A field of the descriptor at `a`. -/
theorem of_field {a off n v : Nat} (hoff : off + n ≤ 16) (hmem : ⟨some a, 16⟩ ∈ rs) :
    ram.Within rs { ram with bytes := putLE ram.bytes (a + off) n v } where
  base := rfl
  frame x hx := by
    refine putLE_out fun hin => hx _ hmem ⟨a, rfl, ?_⟩
    simp only [Span.Has] at hin ⊢
    omega

end Ram.Within

theorem setDescLen_within {rs : List DmaRange} {ram ram' : Ram} {a v : Nat}
    (h : setDescLen ram (some a) v = .ok ram') (hin : a + 16 ≤ ramSize) (hmem : ⟨some a, 16⟩ ∈ rs) :
    ram.Within rs ram' := by
  rw [setDescLen_ok hin] at h
  cases h
  exact .of_field (by decide) hmem

/-! ## Handlers -/

section Handlers

variable {β : Type} {d d₁ : VqDev β} {null : List DmaRange} {vs : Nat → VqDev β → List DmaRange}
  {a : Nat}

namespace VqDev

theorem takes_none (h : d.getAvail = .ok (none, d₁)) : d.takes null vs = d.slotFlags :: null := by
  rw [takes, h]
  rfl

theorem takes_some (h : d.getAvail = .ok (some a, d₁)) :
    d.takes null vs = d.slotFlags :: ⟨some a, 16⟩ :: vs a d₁ := by
  rw [takes, h]
  rfl

theorem markUsed_within {rs : List DmaRange} {ram ram' : Ram} {d' : VqDev β}
    (h : d.markUsed (some a) = .ok d') (hram : d.ram = ram) (hram' : d'.ram = ram')
    (hin : a + 16 ≤ ramSize) (hmem : ⟨some a, 16⟩ ∈ rs) :
    ram.Within rs ram' := by
  subst hram hram'
  obtain ⟨ram, hflags, rfl⟩ := markUsed_inv h
  rw [xorDescUsed_ok hin] at hflags
  cases hflags
  exact .of_field (by decide) hmem

end VqDev

end Handlers

section Net

variable {dev dev' : VirtioNetDev} {rs : List DmaRange}

theorem disableGuestEvent_within {ram : Ram} (h : disableGuestEvent dev = .ok dev')
    (hram : dev.ram = ram) (hmem : dev.eventFlags ∈ rs) : ram.Within rs dev'.ram := by
  subst hram
  obtain ⟨ram, hstore, h⟩ := bind_eq_ok.mp h
  cases h
  exact .of_changed (Ram.write_changed hstore (by rw [toLE_length])) hmem

/-- The call finds no descriptor. -/
theorem none_within {d₁ : VirtioNetDev} {vs : Nat → VirtioNetDev → List DmaRange}
    (hget : dev.getAvail = .ok (none, d₁)) (h : disableGuestEvent d₁ = .ok dev') :
    dev.ram.Within (dev.takes [dev.eventFlags] vs) dev'.ram := by
  rw [VqDev.takes_none hget]
  rcases VqDev.getAvail_inv hget with ⟨-, rfl⟩ | ⟨a, vq, hp, -⟩
  · exact disableGuestEvent_within h rfl (by simp)
  · cases hp

theorem tx_within (h : virtioNetCompleteRequestTx dev = .ok dev') :
    dev.ram.Within (txRanges dev) dev'.ram := by
  obtain ⟨⟨desc, d₁⟩, hget, h⟩ := bind_eq_ok.mp h
  cases desc with
  | none => exact none_within hget h
  | some a =>
    rw [txRanges, VqDev.takes_some hget, ← VqDev.getAvail_ram hget]
    obtain ⟨addr, haddr, h⟩ := bind_eq_ok.mp h
    have hin := VqDev.getAvail_in hget haddr
    obtain ⟨len, hlen, h⟩ := bind_eq_ok.mp h
    obtain rfl := Except.ok.inj ((descLen_ok hin).symm.trans hlen)
    simp only
    split at h
    · rename_i hshort
      rw [if_pos hshort]
      exact disableGuestEvent_within h rfl (by simp)
    · rename_i hshort
      rw [if_neg hshort]
      obtain ⟨⟨r, tap⟩, hwrite, h⟩ := bind_eq_ok.mp h
      have hr := Tap.writev_inv hwrite
      cases r with
      | none =>
        have hdisable : disableGuestEvent { d₁ with backend := tap } = .ok dev' := h
        rw [if_neg (by rw [← hr]; simp)]
        exact disableGuestEvent_within hdisable rfl (by simp [VqDev.eventFlags])
      | some n =>
        obtain ⟨d₂, hmark, h⟩ := bind_eq_ok.mp h
        cases h
        exact VqDev.markUsed_within hmark rfl rfl hin (by simp)

theorem rx_within (h : virtioNetCompleteRequestRx dev = .ok dev') :
    dev.ram.Within (rxRanges dev) dev'.ram := by
  obtain ⟨⟨desc, d₁⟩, hget, h⟩ := bind_eq_ok.mp h
  cases desc with
  | none => exact none_within hget h
  | some a =>
    rw [rxRanges, VqDev.takes_some hget, ← VqDev.getAvail_ram hget]
    obtain ⟨addr, haddr, h⟩ := bind_eq_ok.mp h
    have hin := VqDev.getAvail_in hget haddr
    obtain rfl := Except.ok.inj ((descAddr_ok hin).symm.trans haddr)
    obtain ⟨ram₁, hzeros, h⟩ := bind_eq_ok.mp h
    obtain ⟨ram₂, hnum, h⟩ := bind_eq_ok.mp h
    obtain ⟨hb, -, rfl⟩ := header_ram hzeros hnum
    rw [Ram.lenAfterHeader, Ram.bufAt]
    generalize (descAt d₁.ram.bytes a).addr - d₁.ram.base = b at hb h ⊢
    simp only [hb] at h ⊢
    obtain ⟨len, hlen, h⟩ := bind_eq_ok.mp h
    obtain rfl := Except.ok.inj ((descLen_ok hin).symm.trans hlen)
    obtain ⟨⟨r, ram₃, tap⟩, hread, h⟩ := bind_eq_ok.mp h
    generalize sizeSub (descAt (patch d₁.ram.bytes b virtioNetHdr) a).len virtioHeaderLen =
      size at hread ⊢
    have hhdr : d₁.ram.Changed (some b) virtioHeaderLen
        { d₁.ram with bytes := patch d₁.ram.bytes b virtioNetHdr } :=
      ⟨rfl, fun x hx => patch_out fun hin => hx ⟨b, rfl, hin⟩⟩
    refine (Ram.Within.of_changed hhdr (by simp)).trans ?_
    rcases Tap.read_cases hread with ⟨hret, rfl, rfl⟩ | ⟨bs, hret, rfl, hwrite⟩
    · rw [hret]
      exact disableGuestEvent_within h rfl (by simp [VqDev.eventFlags])
    · rw [hret]
      obtain ⟨ram₅, hlen, h⟩ := bind_eq_ok.mp h
      obtain ⟨d₂, hmark, h⟩ := bind_eq_ok.mp h
      cases h
      have hframe : Ram.Changed _ bs.length _ ram₃ := Ram.write_changed hwrite (Nat.le_refl _)
      refine ((Ram.Within.of_changed hframe (by simp)).trans
        (setDescLen_within hlen hin (by simp))).trans ?_
      exact VqDev.markUsed_within hmark rfl rfl hin (by simp)

end Net

namespace Blk

variable {dev dev' : VirtioBlkDev} {req req' : Store} {desc : Ptr} {status : Nat} {flow : Flow}
  {head a : Nat}

theorem virtioBlkRead_within {data : Ptr} {offset : Int} {size : Nat} {r : Option Nat}
    (h : virtioBlkRead dev data offset size = .ok (r, dev')) :
    dev.ram.Changed data ((dev.backend.fd.lseek offset).readMoves size) dev'.ram := by
  obtain ⟨⟨r', ram, img⟩, hread, h⟩ := bind_eq_ok.mp h
  cases h
  obtain ⟨⟨r', ram, fd⟩, hfile, h⟩ := bind_eq_ok.mp hread
  cases h
  unfold File.read at hfile
  unfold File.readMoves
  cases henv : (dev.backend.fd.lseek offset).env (dev.backend.fd.lseek offset).calls with
  | err =>
    rw [henv] at hfile
    cases hfile
    exact .refl
  | count k =>
    rw [henv] at hfile
    obtain ⟨ram', hwrite, h⟩ := bind_eq_ok.mp hfile
    cases h
    exact Ram.write_changed hwrite (by rw [slice_length])

theorem virtioBlkWrite_ram {data : Ptr} {offset : Int} {size : Nat} {r : Option Nat}
    (h : virtioBlkWrite dev data offset size = .ok (r, dev')) : dev'.ram = dev.ram := by
  obtain ⟨⟨r', img⟩, -, h⟩ := bind_eq_ok.mp h
  cases h
  rfl

theorem transfer_within (h : transfer dev req = .ok (desc, status, dev', req')) :
    dev.ram.Within (transferRanges dev req) dev'.ram := by
  obtain ⟨a, rfl, hin⟩ := transfer_desc h
  obtain ⟨a', d₁, hget, ha, -⟩ := transfer_inv h
  cases ha
  unfold transfer at h
  rw [hget, ok_bind] at h
  simp only [descLen_ok hin, descAddr_ok hin, ok_bind] at h
  rw [transferRanges, VqDev.takes_some hget, ← VqDev.getAvail_ram hget]
  unfold moves
  split at h
  · rename_i htype
    obtain ⟨⟨r, d₂⟩, hio, h⟩ := bind_eq_ok.mp h
    cases h
    refine .of_changed (virtioBlkRead_within hio) ?_
    simp [htype]
  · obtain ⟨⟨r, d₂⟩, hio, h⟩ := bind_eq_ok.mp h
    cases h
    rw [virtioBlkWrite_ram hio]
    exact .refl _ _

/-- The status byte, and the head of the chain. -/
theorem finish_within (hhead : head + 16 ≤ ramSize) (ha : a + 16 ≤ ramSize)
    (h : finish dev (some head) (some a) status = .ok (flow, dev')) :
    dev.ram.Within (⟨some head, 16⟩ :: finishRanges dev a) dev'.ram := by
  unfold finish at h
  rw [virtqCheckNext_ok ha, ok_bind] at h
  unfold finishRanges
  split at h
  · rename_i hnext
    rw [if_pos hnext]
    obtain ⟨⟨p, d₁⟩, hget, h⟩ := bind_eq_ok.mp h
    obtain ⟨addr, haddr, h⟩ := bind_eq_ok.mp h
    obtain ⟨ram₁, hstore, h⟩ := bind_eq_ok.mp h
    obtain ⟨d₂, hmark, h⟩ := bind_eq_ok.mp h
    obtain ⟨ram₂, hlen, h⟩ := bind_eq_ok.mp h
    cases h
    cases p with
    | none => cases haddr
    | some b =>
      obtain rfl := Except.ok.inj ((descAddr_ok (VqDev.getAvail_in hget haddr)).symm.trans haddr)
      rw [VqDev.takes_some hget, ← VqDev.getAvail_ram hget]
      have hstatus : d₁.ram.Changed _ 1 ram₁ := Ram.write_changed hstore (by rw [toLE_length])
      refine ((Ram.Within.of_changed hstatus (by simp)).trans ?_).trans
        (setDescLen_within hlen hhead (by simp))
      exact VqDev.markUsed_within hmark rfl rfl hhead (by simp)
  · cases h
    exact .refl _ _

theorem body_within (hhead : head + 16 ≤ ramSize)
    (h : body dev (some head) req = .ok (flow, dev', req')) :
    dev.ram.Within (⟨some head, 16⟩ :: bodyRanges dev head req) dev'.ram := by
  obtain ⟨req₁, hcopy, h⟩ := bind_eq_ok.mp h
  simp only [bodyRanges, hcopy, follow_ok]
  split at h
  · rename_i hio
    rw [if_pos (show IsIoType req₁ from hio)]
    rw [virtqCheckNext_ok hhead, ok_bind] at h
    split at h
    · rename_i hnext
      rw [if_pos hnext]
      obtain ⟨⟨desc, status, d₂, req₂⟩, htr, h⟩ := bind_eq_ok.mp h
      obtain ⟨⟨flow', d₃⟩, hfin, h⟩ := bind_eq_ok.mp h
      cases h
      obtain ⟨a, rfl, ha⟩ := transfer_desc htr
      simp only [htr, follow_ok]
      refine ((transfer_within htr).mono ?_).trans ((finish_within hhead ha hfin).mono ?_)
      · intro r hr
        simp [hr]
      · intro r hr
        rcases List.mem_cons.mp hr with rfl | hr
        · exact List.mem_cons_self
        · simp [hr]
    · cases h
      exact .refl _ _
  · rename_i hio
    rw [if_neg (show ¬ IsIoType req₁ from hio)]
    obtain ⟨⟨flow', d₃⟩, hfin, h⟩ := bind_eq_ok.mp h
    cases h
    refine (finish_within hhead hhead hfin).mono fun r hr => ?_
    rcases List.mem_cons.mp hr with rfl | hr
    · exact List.mem_cons_self
    · simp [hr]

theorem round_within (h : round dev req = .ok (flow, dev', req')) :
    dev.ram.Within (roundRanges dev req) dev'.ram := by
  obtain ⟨⟨desc, d₁⟩, hget, h⟩ := bind_eq_ok.mp h
  cases desc with
  | none =>
    cases h
    rw [VqDev.getAvail_ram hget]
    exact .refl _ _
  | some head =>
    have hbody : body d₁ (some head) req = .ok (flow, dev', req') := h
    obtain ⟨req₁, hcopy, -⟩ := bind_eq_ok.mp hbody
    obtain ⟨addr, haddr, -⟩ := bind_eq_ok.mp hcopy
    rw [roundRanges, VqDev.takes_some hget, ← VqDev.getAvail_ram hget]
    exact (body_within (VqDev.getAvail_in hget haddr) hbody).mono (List.subset_cons_self _ _)

end Blk

theorem blk_within {dev' : VirtioBlkDev} :
    ∀ {fuel : Nat} {dev : VirtioBlkDev} {req : Store},
    virtioBlkCompleteRequest fuel dev req = .ok dev' →
      dev.ram.Within (blkRanges fuel dev req) dev'.ram := by
  intro fuel
  induction fuel with
  | zero => intro dev req h; cases h
  | succ fuel ih =>
    intro dev req h
    obtain ⟨⟨flow, d₁, req₁⟩, hround, h⟩ := bind_eq_ok.mp h
    rw [blkRanges, hround, follow_ok]
    refine ((Blk.round_within hround).mono (List.subset_append_left _ _)).trans ?_
    cases flow with
    | loop => exact (ih h).mono (List.subset_append_right _ _)
    | ret =>
      cases h
      exact .refl _ _

/-! ## Turns of a device -/

namespace VirtioKind

variable {k : VirtioKind} {fuel : Nat} {req : Store} {q : Nat}

theorem completeRequest_within {d d' : VqDev k.Backend}
    (h : (k.ops fuel req q).completeRequest d = .ok d') :
    d.ram.Within (k.completeRanges fuel req q d) d'.ram := by
  cases k with
  | blk => exact blk_within h
  | net =>
    simp only [ops, virtioNetOps] at h
    show d.ram.Within (if q = virtqRx then rxRanges d else txRanges d) d'.ram
    split at h
    · rename_i hq
      rw [if_pos hq]
      exact rx_within h
    · rename_i hq
      rw [if_neg hq]
      exact tx_within h

theorem handle_within {d d' : VqDev k.Backend}
    (h : virtqHandleAvail (k.ops fuel req q).completeRequest (k.ops fuel req q).notifyUsed d =
      .ok d') :
    d.ram.Within (k.handleRanges fuel req q d) d'.ram := by
  unfold virtqHandleAvail at h
  unfold handleRanges
  split at h
  · cases h
    exact .refl _ _
  · rename_i hen
    rw [if_neg hen]
    obtain ⟨d₁, hreq, h⟩ := bind_eq_ok.mp h
    obtain ⟨flags, -, h⟩ := bind_eq_ok.mp h
    have hdone := (completeRequest_within hreq).mono (List.subset_append_left _
      (follow ((k.ops fuel req q).completeRequest d) fun d => [d.eventFlags]))
    split at h
    · rw [notifyUsed_eq] at h
      cases h
      exact hdone
    · cases h
      exact hdone

theorem handleAvail_within (dev : VirtioPciDev k.Backend) (q : Nat) :
    dev.ram.Within (k.queueRanges fuel req q dev) (handleAvail (k.ops fuel req) dev q).dev.ram := by
  unfold handleAvail queueRanges
  split
  · split
    · exact .refl _ _
    · split
      · rename_i d hd
        exact handle_within hd
      · exact .refl _ _
  · exact .refl _ _

/-- **One turn of a device** changes guest memory inside what it reaches for, the guest's own stores
apart. -/
theorem dmaStep_within (dev : VirtioPciDev k.Backend) {ev : DmaEvent}
    (hev : ∀ m, ev ≠ .event (.memory m)) :
    dev.ram.Within (k.dmaRanges dev ev) (k.dmaStep dev ev).dev.ram := by
  cases ev with
  | arm q =>
    simp only [dmaStep, dmaRanges]
    split
    · split
      · rename_i d hd
        obtain ⟨ram, hstore, hd⟩ := bind_eq_ok.mp hd
        cases hd
        exact .of_changed (Ram.write_changed hstore (by rw [toLE_length]))
          (List.mem_singleton.mpr rfl)
      · exact .refl _ _
    · exact .refl _ _
  | event ev =>
    cases ev with
    | access a fuel req =>
      simp only [dmaStep, dmaRanges]
      rcases access_cases a with ⟨hw, hlt⟩ | ⟨hr, hlt⟩ | hge
      · rw [step, spaceIo_register _ _ hw hlt, ← copied_ram a dev]
        by_cases hnot : a.offset = notifyData
        · rw [if_pos ⟨hw, hnot⟩, hnot, writeRegister_notify]
          exact handleAvail_within (a.copied dev) _
        · have hquiet : (writeRegister (k.ops fuel req) (a.copied dev) a.offset a.data).dev.ram =
              (a.copied dev).ram :=
            (writeRegister_quiet (a.copied dev) a.data hnot).ram
          exact ⟨congrArg Ram.base hquiet, fun x _ => congrFun (congrArg Ram.bytes hquiet) x⟩
      · have hread : (k.step dev (.access a fuel req)).dev.ram = dev.ram := by
          rw [step, spaceIo_read _ _ hr hlt]
          simp only [Outcome.after, Outcome.done]
          split <;> rfl
        rw [hread]
        exact .refl _ _
      · obtain ⟨devCfg, peeks, h, -⟩ := spaceIo_devCfg_dev (k.ops fuel req) dev hge
        rw [step, h]
        exact .refl _ _
    | handle q fuel req =>
      simp only [dmaStep, dmaRanges, step]
      split
      · exact handleAvail_within dev q
      · exact .refl _ _
    | getAvail q =>
      simp only [dmaStep, dmaRanges, step]
      split
      · split
        · rename_i d hd
          rw [show (Outcome.done (dev.putVqDev q d)).dev.ram = dev.ram from VqDev.getAvail_ram hd]
          exact .refl _ _
        · exact .refl _ _
      · exact .refl _ _
    | memory m => exact absurd rfl (hev m)
    | header h => exact .refl _ _

end VirtioKind

/-! ## The machine -/

/-- Guest memory as the guest last stored to it. -/
def BoardEvent.stored {ι : Type} (m : Store) : BoardEvent ι → Store
  | .memory m' => m'
  | _ => m

namespace Board

variable {ι : Type} [DecidableEq ι] {kind : ι → VirtioKind} (busFuel reqFuel : Nat)

/-- What an access whose handler is that of `t` reaches for. -/
def reachedAccess (b : Board kind) (a : GuestAccess) : Target ι → List DmaRange
  | .bar d _ offset =>
    if h : offset + a.data.length ≤ barWindow then
      (kind d).dmaRanges (b.view d).dev
        (.event (.access ⟨a.isWrite, offset, a.data, a.size_pos, a.size_le, h⟩ reqFuel
          b.devs.stack))
    else []
  | _ => []

/-- What a turn reaches for in guest memory, the guest's own stores apart. -/
def reached : Board kind × BoardEvent ι → List DmaRange
  | (b, .access a) => follow (b.route busFuel a) (b.reachedAccess reqFuel a)
  | (b, .handle d q fuel req) => (kind d).dmaRanges (b.view d).dev (.event (.handle q fuel req))
  | (b, .arm d q) => (kind d).dmaRanges (b.view d).dev (.arm q)
  | _ => []

variable {busFuel reqFuel} {b b' : Board kind} {d : ι}

omit [DecidableEq ι] in
theorem dmaNext_within {k : VirtioKind} {dev dev' : VirtioPciDev k.Backend} {ev : DmaEvent}
    (h : k.dmaNext dev ev = some dev') (hev : ∀ m, ev ≠ .event (.memory m)) :
    dev.ram.Within (k.dmaRanges dev ev) dev'.ram := by
  have hstep := VirtioKind.dmaStep_within dev hev
  unfold VirtioKind.dmaNext at h
  split at h
  · cases h
    exact hstep
  · cases h

/-- **One turn of the machine** changes guest memory inside what it reaches for, or is the guest's
own store. -/
theorem next_within {ds : List ι} (hs : b.sys.Decoded ds) {e : BoardEvent ι}
    (hn : b.next busFuel reqFuel e = some b') {x : Nat}
    (hx : ∀ r ∈ reached busFuel reqFuel (b, e), ¬ r.Has x) :
    b'.devs.bytes x = e.stored b.devs.bytes x := by
  cases e with
  | access a =>
    obtain ⟨t, data, hroute, hact⟩ := Machine.next_access hn
    rw [reached, hroute, follow_ok] at hx
    cases t with
    | nobody => cases hact; rfl
    | latch off => cases hact; rfl
    | serial off => cases hact; rfl
    | config e off =>
      cases hw : a.isWrite with
      | false =>
        rw [hw] at hact
        cases hact
        rfl
      | true =>
        rw [hw] at hact
        obtain ⟨sys, -, hact⟩ := bind_eq_ok.mp hact
        cases hact
        rfl
    | bar e i off =>
      obtain ⟨⟨devs, data'⟩, hbar, hact⟩ := bind_eq_ok.mp hact
      cases hact
      obtain ⟨-, -, hwin⟩ := Machine.route_bar hs hroute
      obtain ⟨dev, hdev, rfl⟩ := barIo_next a.size_pos a.size_le hwin hbar
      rw [reachedAccess, dif_pos hwin] at hx
      have hdma : (kind e).dmaNext (b.view e).dev
          (.event (.access ⟨a.isWrite, off, a.data, a.size_pos, a.size_le, hwin⟩ reqFuel
            b.devs.stack)) = some dev := hdev
      exact (dmaNext_within hdma (fun m h => by cases h)).frame x hx
  | memory m =>
    cases hn
    rfl
  | handle e q fuel req =>
    obtain ⟨ev, hev, hnext⟩ := Option.bind_eq_some_iff.mp hn
    obtain ⟨dev, hdev, rfl⟩ := Option.map_eq_some_iff.mp hev
    cases hnext
    have hdma : (kind e).dmaNext (b.view e).dev (.event (.handle q fuel req)) = some dev := hdev
    exact (dmaNext_within hdma (fun m h => by cases h)).frame x hx
  | arm e q =>
    obtain ⟨ev, hev, hnext⟩ := Option.bind_eq_some_iff.mp hn
    obtain ⟨dev, hdev, rfl⟩ := Option.map_eq_some_iff.mp hev
    cases hnext
    exact (dmaNext_within hdev (fun m h => by cases h)).frame x hx
  | uart serial =>
    cases hn
    rfl
  | stack s =>
    cases hn
    rfl

/-- The machine, with guest memory as the guest knows it. -/
structure Tracked (kind : ι → VirtioKind) where
  board : Board kind
  guest : Store

variable (busFuel reqFuel) in
def Tracked.next (s : Tracked kind) (e : BoardEvent ι) : Option (Tracked kind) :=
  (s.board.next busFuel reqFuel e).map fun b => ⟨b, e.stored s.guest⟩

/-- On the addresses of `P` the machine and the guest agree. -/
structure Tracked.Agrees (ds : List ι) (P : Nat → Prop) (s : Tracked kind) : Prop where
  decoded : s.board.sys.Decoded ds
  bytes : ∀ x, P x → s.board.devs.bytes x = s.guest x

theorem Tracked.Agrees.next {ds : List ι} {P : Nat → Prop} {s s' : Tracked kind} {e : BoardEvent ι}
    (h : s.Agrees ds P) (hfree : ∀ r ∈ reached busFuel reqFuel (s.board, e), ∀ x, P x → ¬ r.Has x)
    (hn : s.next busFuel reqFuel e = some s') :
    s'.Agrees ds P := by
  obtain ⟨b, hb, rfl⟩ := Option.map_eq_some_iff.mp hn
  refine ⟨next_decoded h.decoded hb, fun x hx => ?_⟩
  rw [next_within h.decoded hb fun r hr => hfree r hr x hx]
  cases e with
  | memory m => rfl
  | access | handle | arm | uart | stack => exact h.bytes x hx

/-- **Private memory.** Memory that no turn reaches into is as the guest left it, in every run of
the machine. A run ends at an access or a call that stops, which leaves guest memory or the device
configuration or follows an overwritten pointer; nothing is said of memory after that. -/
theorem private_memory (arch : Arch) (ds : List ι) (hnd : ds.Nodup) (kind : ι → VirtioKind)
    (host : (d : ι) → Host (kind d).Backend) (latch : Store) (heap : Heap ι) (bytes stack : Store)
    (busFuel reqFuel : Nat) (P : Nat → Prop) (es : List (BoardEvent ι))
    (hfree : ∀ t ∈ turns (Tracked.next busFuel reqFuel)
      ⟨boot arch ds host latch heap bytes stack, bytes⟩ es,
      ∀ r ∈ reached busFuel reqFuel (t.1.board, t.2), ∀ x, P x → ¬ r.Has x) :
    ∀ t ∈ turns (Tracked.next busFuel reqFuel) ⟨boot arch ds host latch heap bytes stack, bytes⟩ es,
      ∀ x, P x → t.1.board.devs.bytes x = t.1.guest x := by
  have hboot : Tracked.Agrees ds P ⟨boot arch ds host latch heap bytes stack, bytes⟩ := by
    refine ⟨boot_decoded hnd, fun x _ => ?_⟩
    rw [boot_devs]
  intro t ht
  exact (turns_invariant (fun s e s' h hf hn => h.next hf hn) hboot hfree t ht).bytes

/-- The guest enables the queue. -/
def enableTxQueue : GuestAccess :=
  { selectQueue with
    addr := 0xFE00001C
    inside := by decide }

/-- The network card sends a frame of 14 bytes from guest address 0, where its transmit ring is
too. -/
def sending : List (BoardEvent Bool) :=
  selecting.take 5 ++ [.access enableTxQueue, .memory (putLE (putLE (fun _ => 0) 8 4 26) 14 2 0x80),
    .handle true 1 0 (fun _ => 0), .arm true 1]

theorem private_memory_sending :
    ∃ t ∈ turns (Tracked.next 35 0) ⟨twoCards, fun _ => 0⟩ sending,
      t.1.board.devs.bytes 15 ≠ t.1.guest 15 ∧
      ∀ x, 0x1000 ≤ x → t.1.board.devs.bytes x = t.1.guest x := by
  have hlow : ∀ t ∈ turns (Tracked.next 35 0) ⟨twoCards, fun _ => 0⟩ sending,
      ∀ r ∈ reached 35 0 (t.1.board, t.2), r.start.all (· + r.len ≤ 0x1000) = true := by
    decide +kernel
  have hmem :=
    private_memory .x86 [false, true] (by decide) cardKind cardHost (fun _ => 0xFF) blankNodes
    (fun _ => 0) (fun _ => 0) 35 0 (0x1000 ≤ ·) sending ?_
  · exact ⟨_, List.mem_of_getElem? (i := 8) rfl,
      by decide +kernel, hmem _ (List.mem_of_getElem? (i := 8) rfl)⟩
  · rintro t ht r hr x hx ⟨a, ha, hin⟩
    have hend := hlow t ht r hr
    rw [ha] at hend
    simp only [Option.all_some, decide_eq_true_eq] at hend
    simp only [Span.Has] at hin
    omega

end Board

end KvmHost
