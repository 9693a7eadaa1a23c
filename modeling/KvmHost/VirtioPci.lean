import KvmHost.Pci
import KvmHost.VirtioBlk
import KvmHost.VirtioNet

/-!
# KvmHost.VirtioPci

The virtio transport over PCI (`virtio-pci.c`): what guest accesses to BAR 0 do to a device.

The window is 0x100 bytes. Its first 64 are `struct virtio_pci_config` up to the pointer `dev_cfg`:
the 56 bytes of `virtio_pci_common_cfg`, `isr_cap` at 56 and `notify_data` at 60; the rest goes
through `dev_cfg` to the device configuration. Both `virtio_pci_config` and the `virtq_info` of a
queue are kept as byte images that go on past their end, since the copies of the source do: bytes 64
to 71 of `config` are the pointer `dev_cfg`, bytes 32 to 39 of a queue's `info` are its pointer
`dev`. No access of at most eight bytes gets further than that.

An access is modelled by its `Outcome`: the state it leaves, the copies it made, and where it leaves
the model, if it does (`PciStop`): an element past the end of `dev->vq`, a pointer that has been
overwritten, a write past the end of the device configuration, a header access past the header, or a
handler that stops. Most of these return in the source and go on with other data of the host changed
or read, which the model does not follow; `virtq_disable` does nothing with such an element at all.
A read past the end of the device configuration returns here too, with bytes that the environment
chooses.
-/

namespace KvmHost

open ByteStore

inductive PciStop where
  | noQueue (i : Nat)
  | dangling
  | smash
  | header
  | handler (e : Stop)
deriving DecidableEq, Repr

/-- One run of the body of `enable_vq`: the queue, what it passed to `vm_ioeventfd_register`, and
the guest memory and `virtq_info` it mapped the ring with. -/
structure EnableRun where
  queue : Nat
  addr : Nat
  len : Nat
  ram : Ram
  info : Store

/-- `struct virtio_pci_dev` with the device around it. -/
structure VirtioPciDev (β : Type) where
  hdr : Store
  config : Store
  deviceFeature : Nat
  guestFeature : Nat
  vq : Nat → Virtq
  -- how many elements `vq` has
  numVq : Nat
  -- the device's configuration: its bytes, host address and size
  devCfg : Store
  devCfgAddr : Nat
  devCfgSize : Nat
  -- what the reads find behind the configuration, one after the other, and how many there were
  behind : Nat → Store
  peeks : Nat
  -- the host address of the device, which `vq[i].dev` holds
  self : Nat
  ram : Ram
  backend : β
  trace : List RingEvent
  enables : List EnableRun

/-- A part of the host's memory that a copy is aimed at. -/
inductive Region where
  | config
  | info (q : Nat)
  | devCfg
  /-- through a `dev_cfg` that was overwritten -/
  | stray
deriving DecidableEq, Repr

structure Copy where
  region : Region
  start : Nat
  len : Nat
deriving DecidableEq, Repr

structure Outcome (β : Type) where
  stop : Option PciStop
  dev : VirtioPciDev β
  copies : List Copy

-- `VIRTIO_PCI_COMMON_*`
def qSelect : Nat := 22
def qSize : Nat := 24
def qEnable : Nat := 28
def qUsedhi : Nat := 52
-- `offsetof(struct virtio_pci_config, ..)`
def isrCap : Nat := 56
def notifyData : Nat := 60
def devCfgOffset : Nat := 64
-- `sizeof(struct virtq_info)`
def virtqInfoSize : Nat := 32
-- the length of BAR 0
def barWindow : Nat := 0x100

section

variable {β : Type}

namespace Outcome

def done (dev : VirtioPciDev β) : Outcome β := ⟨none, dev, []⟩

def failed (e : PciStop) (dev : VirtioPciDev β) : Outcome β := ⟨some e, dev, []⟩

def of (dev : VirtioPciDev β) : Except PciStop (VirtioPciDev β) → Outcome β
  | .ok dev' => done dev'
  | .error e => failed e dev

/-- The copies `cs` came first. -/
def after (cs : List Copy) (o : Outcome β) : Outcome β := { o with copies := cs ++ o.copies }

end Outcome

namespace VirtioPciDev

def deviceFeatureSelect (dev : VirtioPciDev β) : Nat := getLE dev.config 0 4
def guestFeatureSelect (dev : VirtioPciDev β) : Nat := getLE dev.config 8 4
def guestFeatureReg (dev : VirtioPciDev β) : Nat := getLE dev.config 12 4
def numQueues (dev : VirtioPciDev β) : Nat := getLE dev.config 18 2
def deviceStatus (dev : VirtioPciDev β) : Nat := getLE dev.config 20 1
def queueSelect (dev : VirtioPciDev β) : Nat := getLE dev.config qSelect 2
def queueEnable (dev : VirtioPciDev β) : Nat := getLE dev.config qEnable 2
def isrStatus (dev : VirtioPciDev β) : Nat := getLE dev.config isrCap 4
def vqn (dev : VirtioPciDev β) : Nat := getLE dev.config notifyData 2
def devCfgPtr (dev : VirtioPciDev β) : Nat := getLE dev.config devCfgOffset 8
def vqDevPtr (dev : VirtioPciDev β) (q : Nat) : Nat := getLE (dev.vq q).info virtqInfoSize 8

def setConfig (dev : VirtioPciDev β) (c : Store) : VirtioPciDev β := { dev with config := c }

def setVq (dev : VirtioPciDev β) (q : Nat) (vq : Virtq) : VirtioPciDev β :=
  { dev with vq := Function.update dev.vq q vq }

/-- What the handlers of queue `q` work on. -/
def vqDev (dev : VirtioPciDev β) (q : Nat) : VqDev β :=
  ⟨dev.vq q, dev.ram, dev.isrStatus, dev.backend, dev.trace⟩

def putVqDev (dev : VirtioPciDev β) (q : Nat) (d : VqDev β) : VirtioPciDev β :=
  { dev.setVq q d.vq with
    config := putLE dev.config isrCap 4 d.isrStatus
    ram := d.ram
    backend := d.backend
    trace := d.trace }

end VirtioPciDev

/-- `struct virtq_ops` -/
structure VirtqOps (β : Type) where
  enableVq : VirtioPciDev β → Nat → Except PciStop (VirtioPciDev β)
  completeRequest : VqDev β → Except Stop (VqDev β)
  notifyUsed : VqDev β → Except Stop (VqDev β)

/-! ## Capabilities -/

def virtioPciCapNotifyCfg : Nat := 2
def virtioPciCapDeviceCfg : Nat := 4
def virtioPciCapPciCfg : Nat := 5
def virtioPciCapNum : Nat := 5

-- `sizeof(struct virtio_pci_cap)`, and one more `uint32_t` for two of them
def capLen (i : Nat) : Nat :=
  if i = virtioPciCapNotifyCfg ∨ i = virtioPciCapPciCfg then 20 else 16

/-- Where `virtio_pci_set_cap` puts `caps[i]`: the list begins with `caps[1]`, at 0x40. -/
def capAt : Nat → Nat
  | 0 => 0x40
  | 1 => 0x40
  | i + 1 => capAt i + capLen i

def notifyCap : Nat := capAt virtioPciCapNotifyCfg
def devCfgCap : Nat := capAt virtioPciCapDeviceCfg

/-- One turn of the loop of `virtio_pci_set_cap`; 9 is `PCI_CAP_ID_VNDR`. -/
def virtioPciSetCapBody (hdr : Store) (i : Nat) : Store :=
  let next := capAt i + capLen i
  patch hdr (capAt i) ([9, .ofNat next, .ofNat (capLen i), .ofNat i] ++ List.replicate 12 0)

def setCapRange (hdr : Store) (i offset length : Nat) : Store :=
  putLE (putLE hdr (capAt i + 8) 4 offset) (capAt i + 12) 4 length

def virtioPciSetCap (hdr : Store) : Store :=
  let hdr := (List.range' 1 virtioPciCapNum).foldl virtioPciSetCapBody hdr
  let hdr := setCapRange hdr 1 0 56
  let hdr := setCapRange hdr virtioPciCapNotifyCfg notifyData 4
  let hdr := setCapRange hdr 3 isrCap 4
  setCapRange hdr virtioPciCapDeviceCfg devCfgOffset 0

/-- `dev->dev_cfg_cap->length` -/
def VirtioPciDev.devCfgLength (dev : VirtioPciDev β) : Nat := getLE dev.hdr (devCfgCap + 12) 4

def virtioPciGetNotifyAddr (dev : VirtioPciDev β) (vq : Virtq) : Except PciStop Nat :=
  let bar := getLE dev.hdr (notifyCap + 4) 1
  -- `cap.bar` is a byte that nothing keeps below 6
  if pciBarOffset bar + 4 ≤ pciCfgSpaceSize then
    let base := getLE dev.hdr (pciBarOffset bar) 4
    let offset := (getLE dev.hdr (notifyCap + 8) 4 +
      getLE dev.hdr (notifyCap + 16) 4 * vq.notifyOff) % 2 ^ 32
    .ok (base + offset)
  else .error .header

/-! ## The queue operations of the devices -/

/-- The three `enable_vq` functions, which differ in the length they register for the notification
address. -/
def enableVq (len : VirtioPciDev β → Nat) (dev : VirtioPciDev β) (q : Nat) :
    Except PciStop (VirtioPciDev β) :=
  let vq := dev.vq q
  if vq.enable ≠ 0 then .ok dev
  else if dev.vqDevPtr q ≠ dev.self then .error .dangling
  else do
    let info := putLE vq.info 4 2 1
    let vq := { vq with
      info := info
      descRing := vmGuestToHost dev.ram vq.descAddr
      deviceEvent := vmGuestToHost dev.ram vq.deviceAddr
      guestEvent := vmGuestToHost dev.ram vq.driverAddr }
    let addr ← virtioPciGetNotifyAddr dev vq
    return { dev.setVq q vq with enables := dev.enables ++ [⟨q, addr, len dev, dev.ram, info⟩] }

def virtioBlkEnableVq : VirtioPciDev β → Nat → Except PciStop (VirtioPciDev β) :=
  enableVq fun dev => getLE dev.hdr (notifyCap + 12) 4

-- `NOTIFY_OFFSET`
def notifyOffset : Nat := 2

def virtioNetEnableVqRx : VirtioPciDev β → Nat → Except PciStop (VirtioPciDev β) :=
  enableVq fun _ => notifyOffset

def virtioNetEnableVqTx : VirtioPciDev β → Nat → Except PciStop (VirtioPciDev β) :=
  enableVq fun _ => notifyOffset

/-- The three `notify_used` functions: a write to the interrupt's eventfd. -/
def writeIrqfd (d : VqDev β) : Except Stop (VqDev β) := .ok { d with trace := d.trace ++ [.notify] }

/-- `ops` of `virtio-blk.c`; `fuel` and `req` are those of `virtioBlkCompleteRequest`. -/
def virtioBlkOps (fuel : Nat) (req : Store) : VirtqOps DiskImg :=
  ⟨virtioBlkEnableVq, fun d => virtioBlkCompleteRequest fuel d req, writeIrqfd⟩

-- `VIRTQ_RX`
def virtqRx : Nat := 0

def virtioNetOps (q : Nat) : VirtqOps Tap :=
  if q = virtqRx then ⟨virtioNetEnableVqRx, virtioNetCompleteRequestRx, writeIrqfd⟩
  else ⟨virtioNetEnableVqTx, virtioNetCompleteRequestTx, writeIrqfd⟩

/-! ## Accesses to BAR 0 -/

def virtioPciSelectDeviceFeature (dev : VirtioPciDev β) : VirtioPciDev β :=
  let feature :=
    match dev.deviceFeatureSelect with
    | 0 => dev.deviceFeature
    | 1 => dev.deviceFeature >>> 32
    | _ => 0
  dev.setConfig (putLE dev.config 4 4 feature)

def virtioPciWriteGuestFeature (dev : VirtioPciDev β) : VirtioPciDev β :=
  match dev.guestFeatureSelect with
  | 0 => { dev with guestFeature := dev.guestFeature ||| dev.guestFeatureReg }
  | 1 => { dev with guestFeature := dev.guestFeature ||| dev.guestFeatureReg <<< 32 }
  | _ => dev

def virtioPciReset (dev : VirtioPciDev β) : VirtioPciDev β := dev

def virtioPciWriteStatus (dev : VirtioPciDev β) : VirtioPciDev β :=
  if dev.deviceStatus = 0 then virtioPciReset dev else dev

def virtioPciSelectVirtq (dev : VirtioPciDev β) : Outcome β :=
  let select := dev.queueSelect
  if select < dev.numQueues then
    .after [⟨.info select, 0, virtqInfoSize⟩, ⟨.config, qSize, virtqInfoSize⟩] <|
      if select < dev.numVq then
        .done (dev.setConfig (patch dev.config qSize (slice (dev.vq select).info 0 virtqInfoSize)))
      else .failed (.noQueue select) dev
  else .done (dev.setConfig (putLE dev.config qSize 2 0))

def virtioPciEnableVirtq (ops : Nat → VirtqOps β) (dev : VirtioPciDev β) : Outcome β :=
  let select := dev.queueSelect
  if select < dev.numVq then .of dev ((ops select).enableVq dev select)
  else .failed (.noQueue select) dev

-- `virtq_disable` does nothing, with an address that may be past the end of the array
def virtioPciDisableVirtq (dev : VirtioPciDev β) : Outcome β :=
  let select := dev.queueSelect
  if select < dev.numVq then .done dev else .failed (.noQueue select) dev

/-- `virtq_handle_avail(&dev->vq[q])` -/
def handleAvail (ops : Nat → VirtqOps β) (dev : VirtioPciDev β) (q : Nat) : Outcome β :=
  if q < dev.numVq then
    if (dev.vq q).enable ≠ 0 ∧ dev.vqDevPtr q ≠ dev.self then .failed .dangling dev
    else
      match virtqHandleAvail (ops q).completeRequest (ops q).notifyUsed (dev.vqDev q) with
      | .ok d => .done (dev.putVqDev q d)
      | .error e => .failed (.handler e) dev
  else .failed (.noQueue q) dev

/-- The `default` case of `virtio_pci_space_write`. -/
def writeOther (ops : Nat → VirtqOps β) (dev : VirtioPciDev β) (offset : Nat) (data : List UInt8) :
    Outcome β :=
  if qSize ≤ offset ∧ offset ≤ qUsedhi then
    let select := dev.queueSelect
    let infoOffset := offset - qSize
    if select < dev.numQueues then
      .after [⟨.info select, infoOffset, data.length⟩] <|
        if select < dev.numVq then
          let vq := dev.vq select
          .done (dev.setVq select { vq with info := patch vq.info infoOffset data })
        else .failed (.noQueue select) dev
    else .done dev
  else if offset = notifyData then handleAvail ops dev dev.vqn
  else .done dev

/-- The `switch` of `virtio_pci_space_write`, on the state after the copy. -/
def writeRegister (ops : Nat → VirtqOps β) (dev : VirtioPciDev β) (offset : Nat)
    (data : List UInt8) : Outcome β :=
  match offset with
  | 0 => .done (virtioPciSelectDeviceFeature dev)
  | 8 => .done (virtioPciWriteGuestFeature dev)
  | 20 => .done (virtioPciWriteStatus dev)
  | 22 => virtioPciSelectVirtq dev
  | 28 => if dev.queueEnable ≠ 0 then virtioPciEnableVirtq ops dev else virtioPciDisableVirtq dev
  | offset => writeOther ops dev offset data

/-- The copy of an access at `devOffset` bytes into the device configuration, and what follows if
`dev_cfg` still points there. -/
def devCfgCopy (dev : VirtioPciDev β) (devOffset len : Nat) (rest : Outcome β) : Outcome β :=
  if dev.devCfgPtr ≠ dev.devCfgAddr then
    .after [⟨.stray, devOffset, len⟩] (.failed .dangling dev)
  else .after [⟨.devCfg, devOffset, len⟩] rest

def virtioPciSpaceWrite (ops : Nat → VirtqOps β) (dev : VirtioPciDev β) (offset : Nat)
    (data : List UInt8) : Outcome β :=
  if offset < devCfgOffset then
    .after [⟨.config, offset, data.length⟩]
      (writeRegister ops (dev.setConfig (patch dev.config offset data)) offset data)
  else
    let devOffset := offset - devCfgOffset
    devCfgCopy dev devOffset data.length
      (if devOffset + data.length ≤ dev.devCfgSize then
        .done { dev with devCfg := patch dev.devCfg devOffset data }
      else .failed .smash dev)

/-- What a read through `dev_cfg` sees of the host's memory. -/
def VirtioPciDev.devCfgView (dev : VirtioPciDev β) : Store := fun p =>
  if p < dev.devCfgSize then dev.devCfg p else dev.behind dev.peeks p

/-- The bytes the guest gets, and the outcome. -/
def virtioPciSpaceRead (dev : VirtioPciDev β) (offset size : Nat) : List UInt8 × Outcome β :=
  if offset < devCfgOffset then
    (slice dev.config offset size,
      .after [⟨.config, offset, size⟩]
        (.done (if offset = isrCap then dev.setConfig (putLE dev.config isrCap 4 0) else dev)))
  else
    let devOffset := offset - devCfgOffset
    (slice dev.devCfgView devOffset size,
      devCfgCopy dev devOffset size
        (.done (if devOffset + size ≤ dev.devCfgSize then dev
          else { dev with peeks := dev.peeks + 1 })))

/-- An access that the bus hands to BAR 0; `data` is the buffer. -/
structure Access where
  isWrite : Bool
  offset : Nat
  data : List UInt8
  size_pos : 1 ≤ data.length
  size_le : data.length ≤ 8
  window : offset + data.length ≤ barWindow

def Access.size (a : Access) : Nat := a.data.length

def virtioPciSpaceIo (ops : Nat → VirtqOps β) (dev : VirtioPciDev β) (a : Access) : Outcome β :=
  if a.isWrite then virtioPciSpaceWrite ops dev a.offset a.data
  else (virtioPciSpaceRead dev a.offset a.size).2

/-! ## Creation -/

-- `VIRTIO_F_RING_PACKED` and `VIRTIO_F_VERSION_1`
def virtioFeatures : Nat := 2 ^ 34 ||| 2 ^ 32

/-- `virtio_pci_init` and `virtio_pci_set_pci_hdr`: the header of a new device. -/
def virtioPciHdr (deviceId cls irqLine : Nat) : Store :=
  let hdr := putLE (fun _ => 0) 0x00 2 0x1AF4
  let hdr := putLE hdr 0x34 1 0x40
  let hdr := putLE hdr 0x0e 1 0
  let hdr := putLE hdr 0x3d 1 1
  -- `PCI_STATUS_CAP_LIST | PCI_STATUS_INTERRUPT`
  let hdr := putLE hdr 0x06 2 0x18
  let hdr := putLE hdr (pciBarOffset 0) 4 0
  let hdr := virtioPciSetCap hdr
  let hdr := putLE hdr 0x02 2 deviceId
  let hdr := putLE hdr 0x08 4 (cls <<< 8)
  putLE hdr 0x3c 1 irqLine

/-- The parts of a device that its creation is given: the host address of the device, the address
and the size of its configuration (`sizeof(struct virtio_blk_config)` or `virtio_net_config`, which
depends on the headers of the build), guest memory, the backend and the interrupt number. -/
structure Host (β : Type) where
  self : Nat
  devCfgAddr : Nat
  devCfgSize : Nat
  behind : Nat → Store
  ram : Ram
  backend : β
  irqNum : Nat
  self_lt : self < 2 ^ 64
  devCfgAddr_lt : devCfgAddr < 2 ^ 64

/-- `virtq_init`, on a zeroed `struct virtq` whose `notify_off` has been set. -/
def newVirtq (self notifyOff : Nat) : Virtq :=
  let vq := virtqInit ⟨none, none, none, putLE (fun _ => 0) 6 2 notifyOff, 0, false⟩
  { vq with info := putLE vq.info virtqInfoSize 8 self }

/-- `virtio_pci_init`, `virtio_pci_set_dev_cfg`, `virtio_pci_set_pci_hdr`, `virtio_pci_set_virtq`
and `virtio_pci_add_feature`, as the two devices call them. -/
def virtioInitPci (host : Host β) (hdr : Store) (devCfg : Store) (notifyOff : Nat → Nat)
    (n feature : Nat) : VirtioPciDev β where
  -- `virtio_pci_set_dev_cfg` takes the length as a `uint8_t`
  hdr := putLE hdr (devCfgCap + 12) 4 (host.devCfgSize % 256)
  config := putLE (putLE (fun _ => 0) devCfgOffset 8 host.devCfgAddr) 18 2 n
  deviceFeature := virtioFeatures ||| feature
  guestFeature := 0
  vq := fun i => newVirtq host.self (notifyOff i)
  numVq := n
  devCfg := devCfg
  devCfgAddr := host.devCfgAddr
  devCfgSize := host.devCfgSize
  behind := host.behind
  peeks := 0
  self := host.self
  ram := host.ram
  backend := host.backend
  trace := []
  enables := []

-- `VIRTIO_BLK_VIRTQ_NUM` and `VIRTIO_NET_VIRTQ_NUM`
def virtioBlkVirtqNum : Nat := 1
def virtioNetVirtqNum : Nat := 2

def virtioBlkInitPci (host : Host DiskImg) : VirtioPciDev DiskImg :=
  virtioInitPci host (virtioPciHdr 0x1042 0x018000 host.irqNum)
    (putLE (fun _ => 0) 0 8 (host.backend.size >>> 9)) (fun _ => 0) virtioBlkVirtqNum 0

def virtioNetInitPci (host : Host Tap) : VirtioPciDev Tap :=
  virtioInitPci host
    (putLE (virtioPciHdr 0x1041 0x020000 host.irqNum) (notifyCap + 16) 4 notifyOffset)
    (fun _ => 0) (fun i => i) virtioNetVirtqNum
    -- `VIRTIO_NET_F_MQ` is the bit number 22 and is passed as it is
    22

end

/-- The two virtio devices. -/
inductive VirtioKind where
  | blk
  | net
deriving DecidableEq

namespace VirtioKind

def Backend : VirtioKind → Type
  | blk => DiskImg
  | net => Tap

def ops : (k : VirtioKind) → Nat → Store → Nat → VirtqOps k.Backend
  | blk, fuel, req, _ => virtioBlkOps fuel req
  | net, _, _, q => virtioNetOps q

def initPci : (k : VirtioKind) → Host k.Backend → VirtioPciDev k.Backend
  | blk => virtioBlkInitPci
  | net => virtioNetInitPci

end VirtioKind

end KvmHost
