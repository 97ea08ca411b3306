import Mathlib
import Multi64.Lib.Effect
import Multi64.Lib.Store
import Multi64.MemDisk

/-! `SectorPartitionDisk` of `partition.rs`: a partition read and written by
whole sectors, and that it is a flat array of bytes. -/

namespace Multi64

def isExfatBootSector (sector : Bytes) : Bool :=
  decide (11 ≤ sector.length) && slice sector 3 8 == [0x45, 0x58, 0x46, 0x41, 0x54, 0x20, 0x20, 0x20]

def exfatPartitionByteLength (sector : Bytes) : Except DiskError Nat :=
  if sector.length < 0x6E then .error ⟨.invalidData, "invalid exFAT boot sector"⟩
  else
    let bpsShift := (byteAt sector 0x6C).toNat
    if ¬(9 ≤ bpsShift ∧ bpsShift ≤ 12) then .error ⟨.invalidData, "invalid exFAT bytes_per_sector_shift"⟩
    else
      let bytesPerSector := 2 ^ bpsShift
      let volumeLength := readLe sector 0x48 8
      if volumeLength * bytesPerSector < 2 ^ 64 then .ok (volumeLength * bytesPerSector)
      else .error ⟨.invalidData, "exFAT volume size overflow"⟩

def fatPartitionByteLength (bpb : Bytes) : Except DiskError Nat :=
  let bps := readLe bpb 0x0B 2
  if bps = 0 ∨ ¬512 ∣ bps then
    .error ⟨.invalidData,
      "invalid bytes per sector in BPB (expected FAT12/16/32 volume; wrong partition offset?)"⟩
  else
    let t16 := readLe bpb 0x13 2
    let t32 := readLe bpb 0x20 4
    let total := if t16 ≠ 0 then t16 else t32
    .ok (total * bps)

def partitionVolumeBytes (bpb : Bytes) : Except DiskError Nat :=
  if bpb.length < 512 then .error ⟨.invalidData, "invalid boot sector"⟩
  else if isExfatBootSector bpb then exfatPartitionByteLength bpb
  else fatPartitionByteLength bpb

/-- Whatever a boot sector says, a partition is whole sectors. -/
theorem partitionVolumeBytes_sectors {bpb : Bytes} {n : Nat} (h : partitionVolumeBytes bpb = .ok n) :
    512 ∣ n ∧ n < 2 ^ 64 := by
  unfold partitionVolumeBytes at h
  split at h
  · exact nomatch h
  · split at h
    · unfold exfatPartitionByteLength at h
      split at h
      · exact nomatch h
      · simp only at h
        split at h
        · exact nomatch h
        next hshift =>
          split at h
          next hfits =>
            obtain rfl := Except.ok.inj h
            have hge : 9 ≤ (byteAt bpb 0x6C).toNat := (not_not.mp hshift).1
            exact ⟨Nat.dvd_mul_left_of_dvd (Nat.pow_dvd_pow 2 hge) _, hfits⟩
          · exact nomatch h
    · unfold fatPartitionByteLength at h
      simp only at h
      split at h
      · exact nomatch h
      next hbps =>
        obtain rfl := Except.ok.inj h
        have hb : readLe bpb 0x0B 2 < 2 ^ 16 := readLe_lt bpb 2 0x0B
        have ht : (if readLe bpb 0x13 2 ≠ 0 then readLe bpb 0x13 2 else readLe bpb 0x20 4) < 2 ^ 32 := by
          have h16 : readLe bpb 0x13 2 < 2 ^ 16 := readLe_lt bpb 2 0x13
          have h32 : readLe bpb 0x20 4 < 2 ^ 32 := readLe_lt bpb 4 0x20
          split <;> omega
        refine ⟨Nat.dvd_mul_left_of_dvd (not_not.mp (not_or.mp hbps).2) _, ?_⟩
        calc _ < 2 ^ 32 * 2 ^ 16 := Nat.mul_lt_mul'' ht hb
          _ < 2 ^ 64 := by decide

/-- A partition among the sectors a `u64` can name. -/
structure Partition where
  start : Nat
  bytes : Nat
  sectors : 512 ∣ bytes
  word : bytes < 2 ^ 64
  fits : start + bytes / 512 ≤ 2 ^ 64

def sdCardBufferMaxBytes : Nat := 128 * 1024

structure SdCardTransport (σ : Type) where
  readSdSectors : Nat → Nat → Eff DiskError σ Bytes
  writeSdSectors : Nat → Bytes → Eff DiskError σ Unit

structure SectorPartitionDisk (σ : Type) where
  link : σ
  partition : Partition
  pos : Nat
  writable : Bool

namespace SectorPartitionDisk

variable {σ : Type} (t : SdCardTransport σ) (p : Partition) (start : Nat)

/-- One turn takes at least one byte, so `want` turns are enough. -/
def readLoop (want : Nat) : Nat → Bytes → Eff DiskError σ Bytes
  | 0, buf => pure buf
  | n + 1, buf =>
    let got := buf.length
    if got < want then
      let absByte := start + got
      let absSec := word (p.start + absByte / 512)
      let off := absByte % 512
      if off ≠ 0 then do
        let sector ← t.readSdSectors absSec 512
        let take := min (512 - off) (want - got)
        readLoop want n (buf ++ slice sector off take)
      else
        let contiguous := min (want - got) (p.bytes - absByte)
        if contiguous < 512 then do
          let sector ← t.readSdSectors absSec 512
          readLoop want n (buf ++ slice sector 0 contiguous)
        else do
          let batchSectors := min (contiguous / 512) (sdCardBufferMaxBytes / 512)
          let bytes ← t.readSdSectors absSec (batchSectors * 512)
          readLoop want n (buf ++ bytes)
    else pure buf

def writeLoop (buf : Bytes) : Nat → Nat → Eff DiskError σ Nat
  | 0, written => pure written
  | n + 1, written =>
    if written < buf.length then
      let abs := start + written
      if p.bytes ≤ abs then Eff.fail ⟨.writeZero, "write past end of partition"⟩
      else
        let absSec := word (p.start + abs / 512)
        let off := abs % 512
        if off ≠ 0 then do
          let sector ← t.readSdSectors absSec 512
          let take := min (512 - off) (buf.length - written)
          t.writeSdSectors absSec (overwrite sector off (slice buf written take))
          writeLoop buf n (written + take)
        else
          let contiguous := min (buf.length - written) (p.bytes - abs)
          if contiguous < 512 then do
            let sector ← t.readSdSectors absSec 512
            t.writeSdSectors absSec (overwrite sector 0 (slice buf written contiguous))
            writeLoop buf n (written + contiguous)
          else do
            let batchSectors := min (contiguous / 512) (sdCardBufferMaxBytes / 512)
            t.writeSdSectors absSec (slice buf written (batchSectors * 512))
            writeLoop buf n (written + batchSectors * 512)
    else pure written

variable (d : SectorPartitionDisk σ)

def read (len : Nat) : Except DiskError Bytes × SectorPartitionDisk σ :=
  if len = 0 then (.ok [], d)
  else if d.partition.bytes ≤ d.pos then (.ok [], d)
  else
    let want := min len (d.partition.bytes - d.pos)
    match readLoop t d.partition d.pos want want [] d.link with
    | (.ok buf, link) => (.ok buf, { d with link := link, pos := d.pos + buf.length })
    | (.error e, link) => (.error e, { d with link := link })

def write (buf : Bytes) : Except DiskError Nat × SectorPartitionDisk σ :=
  if d.writable = false then (.error ⟨.unsupported, "read-only cart SD session"⟩, d)
  else if buf = [] then (.ok 0, d)
  else
    match writeLoop t d.partition d.pos buf buf.length 0 d.link with
    | (.ok written, link) => (.ok written, { d with link := link, pos := d.pos + written })
    | (.error e, link) => (.error e, { d with link := link })

def seek (s : SeekFrom) : Except DiskError Nat × SectorPartitionDisk σ :=
  match seekTo "seek past end of partition" d.partition.bytes d.pos s with
  | .ok n => (.ok n, { d with pos := n })
  | .error e => (.error e, d)

def step : DiskOp → Except DiskError Answer × SectorPartitionDisk σ
  | .seek s => ((d.seek s).1.map .pos, (d.seek s).2)
  | .read len => ((d.read t len).1.map .bytes, (d.read t len).2)
  | .write buf => ((d.write t buf).1.map .count, (d.write t buf).2)

def run (d : SectorPartitionDisk σ) : List DiskOp → List (Except DiskError Answer) × SectorPartitionDisk σ
  | [] => ([], d)
  | op :: ops =>
    let r := d.step t op
    let rest := run r.2 ops
    (r.1 :: rest.1, rest.2)

end SectorPartitionDisk

/-- A command to a sector device: the first sector and the length in bytes. -/
structure SectorCommand where
  lba : Nat
  len : Nat

structure SectorDevice where
  card : Store
  commands : List SectorCommand

namespace SectorDevice

/-- What the devices accept: whole sectors, one at least, and no more than their
buffer. -/
def Accepts (len : Nat) : Prop := 0 < len ∧ 512 ∣ len ∧ len ≤ sdCardBufferMaxBytes

instance (len : Nat) : Decidable (Accepts len) := inferInstanceAs (Decidable (_ ∧ _ ∧ _))

/-- A device that obeys the commands it accepts. -/
def transport : SdCardTransport SectorDevice where
  readSdSectors lba len s :=
    (if Accepts len then .ok (s.card.read (lba * 512) len) else .error ⟨.other, "read length"⟩,
      { s with commands := s.commands ++ [⟨lba, len⟩] })
  writeSdSectors lba buf s :=
    if Accepts buf.length then
      (.ok (), ⟨s.card.write (lba * 512) buf, s.commands ++ [⟨lba, buf.length⟩]⟩)
    else (.error ⟨.other, "write length"⟩, { s with commands := s.commands ++ [⟨lba, buf.length⟩] })

end SectorDevice

namespace SectorPartitionDisk

section Loops

variable {p : Partition} {start : Nat} {s : SectorDevice}

/-- A command to sectors of the partition. -/
def Within (p : Partition) (c : SectorCommand) : Prop :=
  p.start ≤ c.lba ∧ c.lba + c.len / 512 ≤ p.start + p.bytes / 512

theorem sector_word {i : Nat} (h : i < p.bytes) : word (p.start + i / 512) = p.start + i / 512 := by
  have hfits := p.fits
  obtain ⟨q, hq⟩ := p.sectors
  exact word_eq (by omega)

theorem within_sector {i : Nat} (h : i < p.bytes) : Within p ⟨p.start + i / 512, 512⟩ := by
  obtain ⟨q, hq⟩ := p.sectors
  constructor
  · exact Nat.le_add_right _ _
  · change p.start + i / 512 + 512 / 512 ≤ _
    omega

theorem within_batch {i k : Nat} (h0 : i % 512 = 0) (hk : i + k * 512 ≤ p.bytes) :
    Within p ⟨p.start + i / 512, k * 512⟩ := by
  constructor
  · exact Nat.le_add_right _ _
  · change p.start + i / 512 + k * 512 / 512 ≤ _
    omega

theorem transport_read {len : Nat} (lba : Nat) (s : SectorDevice) (h : SectorDevice.Accepts len) :
    SectorDevice.transport.readSdSectors lba len s =
      (.ok (s.card.read (lba * 512) len), { s with commands := s.commands ++ [⟨lba, len⟩] }) := by
  simp only [SectorDevice.transport, if_pos h]

theorem transport_write {buf : Bytes} (lba : Nat) (s : SectorDevice) (h : SectorDevice.Accepts buf.length) :
    SectorDevice.transport.writeSdSectors lba buf s =
      (.ok (), ⟨s.card.write (lba * 512) buf, s.commands ++ [⟨lba, buf.length⟩]⟩) := by
  simp only [SectorDevice.transport, if_pos h]

theorem accepts_sector : SectorDevice.Accepts 512 := by decide

theorem accepts_batch {n : Nat} (h : 512 ≤ n) :
    SectorDevice.Accepts (min (n / 512) (sdCardBufferMaxBytes / 512) * 512) := by
  have hmax : sdCardBufferMaxBytes = 131072 := rfl
  refine ⟨by omega, Nat.dvd_mul_left _ _, by omega⟩

/-- The loop appends what the card holds, and asks only for the partition's
sectors. -/
theorem readLoop_card {want : Nat} (hin : start + want ≤ p.bytes) (n : Nat) :
    ∀ (buf : Bytes) (s : SectorDevice), buf.length ≤ want → want - buf.length ≤ n →
      ∃ cmds, (∀ c ∈ cmds, Within p c) ∧ readLoop SectorDevice.transport p start want n buf s =
        (.ok (buf ++ s.card.read (p.start * 512 + (start + buf.length)) (want - buf.length)),
          { s with commands := s.commands ++ cmds }) := by
  induction n with
  | zero =>
    intro buf s hle hn
    have hzero : want - buf.length = 0 := by omega
    refine ⟨[], fun _ hc => absurd hc List.not_mem_nil, ?_⟩
    rw [hzero, Store.read_zero, List.append_nil, List.append_nil]
    rfl
  | succ n ih =>
    intro buf s hle hn
    -- A turn that takes `k` bytes and gives one command leaves the rest to the next ones.
    have turn : ∀ (k : Nat) (c : SectorCommand), 0 < k → k ≤ want - buf.length → Within p c →
        ∃ cmds, (∀ c ∈ cmds, Within p c) ∧ readLoop SectorDevice.transport p start want n
            (buf ++ s.card.read (p.start * 512 + (start + buf.length)) k) { s with commands := s.commands ++ [c] } =
          (.ok (buf ++ s.card.read (p.start * 512 + (start + buf.length)) (want - buf.length)),
            { s with commands := s.commands ++ cmds }) := by
      intro k c hpos hk hc
      have hlen : (buf ++ s.card.read (p.start * 512 + (start + buf.length)) k).length = buf.length + k := by
        rw [List.length_append, Store.read_length]
      obtain ⟨cmds, hcmds, hloop⟩ := ih (buf ++ s.card.read (p.start * 512 + (start + buf.length)) k)
        { s with commands := s.commands ++ [c] } (by omega) (by omega)
      refine ⟨c :: cmds, List.forall_mem_cons.mpr ⟨hc, hcmds⟩, ?_⟩
      have hrest : want - buf.length = k + (want - (buf.length + k)) := by omega
      have haddr : p.start * 512 + (start + (buf.length + k)) = p.start * 512 + (start + buf.length) + k := by omega
      rw [hloop, hlen, haddr, hrest, Store.read_append, List.append_assoc, List.append_assoc]
      rfl
    unfold readLoop
    simp only
    by_cases hlt : buf.length < want
    · rw [if_pos hlt]
      have habs : start + buf.length < p.bytes := by omega
      rw [sector_word habs]
      by_cases hoff : (start + buf.length) % 512 = 0
      · rw [if_neg (not_not.mpr hoff)]
        by_cases hsmall : min (want - buf.length) (p.bytes - (start + buf.length)) < 512
        · rw [if_pos hsmall, Eff.bind_run, transport_read _ _ accepts_sector]
          simp only
          rw [Store.slice_read _ _ _ (by omega),
            show (p.start + (start + buf.length) / 512) * 512 + 0 = p.start * 512 + (start + buf.length) by omega]
          exact turn _ _ (by omega) (by omega) (within_sector habs)
        · rw [if_neg hsmall, Eff.bind_run, transport_read _ _ (accepts_batch (Nat.not_lt.mp hsmall))]
          simp only
          rw [show (p.start + (start + buf.length) / 512) * 512 = p.start * 512 + (start + buf.length) by omega]
          exact turn _ _ (accepts_batch (Nat.not_lt.mp hsmall)).1 (by omega) (within_batch hoff (by omega))
      · rw [if_pos hoff, Eff.bind_run, transport_read _ _ accepts_sector]
        simp only
        rw [Store.slice_read _ _ _ (by omega), show (p.start + (start + buf.length) / 512) * 512 +
          (start + buf.length) % 512 = p.start * 512 + (start + buf.length) by omega]
        exact turn _ _ (by omega) (by omega) (within_sector habs)
    · rw [if_neg hlt]
      have hzero : want - buf.length = 0 := by omega
      refine ⟨[], fun _ hc => absurd hc List.not_mem_nil, ?_⟩
      rw [hzero, Store.read_zero, List.append_nil, List.append_nil]
      rfl

/-- A sector read, changed and written back. -/
theorem rewrite_sector {α : Type} {data : Bytes} {off : Nat} (lba : Nat) (s : SectorDevice)
    (h : off + data.length ≤ 512) (m : Eff DiskError SectorDevice α) :
    (SectorDevice.transport.readSdSectors lba 512 >>= fun sector =>
      SectorDevice.transport.writeSdSectors lba (overwrite sector off data) >>= fun _ => m) s =
      m ⟨s.card.write (lba * 512 + off) data, s.commands ++ [⟨lba, 512⟩, ⟨lba, 512⟩]⟩ := by
  have hlen : (overwrite (s.card.read (lba * 512) 512) off data).length = 512 := by
    rw [overwrite_length (by rwa [Store.read_length]), Store.read_length]
  have hsector : SectorDevice.Accepts (overwrite (s.card.read (lba * 512) 512) off data).length := by
    rw [hlen]
    exact accepts_sector
  rw [Eff.bind_run, transport_read _ _ accepts_sector]
  simp only
  rw [Eff.bind_run, transport_write _ _ hsector]
  simp only
  rw [Store.write_overwrite _ _ _ h, hlen, List.append_assoc]
  rfl

/-- The loop stores what fits the partition, and fails if that is not all. -/
theorem writeLoop_card (start : Nat) (buf : Bytes) {fit : Nat} (hfit : fit = min buf.length (p.bytes - start)) (n : Nat) :
    ∀ (written : Nat) (s : SectorDevice), written ≤ fit → buf.length - written ≤ n →
      ∃ cmds, (∀ c ∈ cmds, Within p c) ∧ writeLoop SectorDevice.transport p start buf n written s =
        (if buf.length ≤ fit then .ok buf.length else .error ⟨.writeZero, "write past end of partition"⟩,
          ⟨s.card.write (p.start * 512 + (start + written)) (slice buf written (fit - written)),
            s.commands ++ cmds⟩) := by
  have hdone : ∀ (written : Nat) (s : SectorDevice), written = fit →
      s = ⟨s.card.write (p.start * 512 + (start + written)) (slice buf written (fit - written)),
        s.commands ++ []⟩ := by
    intro written s hw
    have hzero : fit - written = 0 := by omega
    rw [hzero, slice, List.take_zero, Store.write_nil, List.append_nil]
  induction n with
  | zero =>
    intro written s hle hn
    have hw : written = fit := by omega
    refine ⟨[], fun _ hc => absurd hc List.not_mem_nil, ?_⟩
    rw [if_pos (show buf.length ≤ fit by omega), ← hdone written s hw, show buf.length = written by omega]
    rfl
  | succ n ih =>
    intro written s hle hn
    have turn : ∀ (k : Nat) (more : List SectorCommand), 0 < k → k ≤ fit - written → (∀ c ∈ more, Within p c) →
        ∃ cmds, (∀ c ∈ cmds, Within p c) ∧ writeLoop SectorDevice.transport p start buf n (written + k)
            ⟨s.card.write (p.start * 512 + (start + written)) (slice buf written k), s.commands ++ more⟩ =
          (if buf.length ≤ fit then .ok buf.length else .error ⟨.writeZero, "write past end of partition"⟩,
            ⟨s.card.write (p.start * 512 + (start + written)) (slice buf written (fit - written)),
              s.commands ++ cmds⟩) := by
      intro k more hpos hk hmore
      obtain ⟨cmds, hcmds, hloop⟩ := ih (written + k)
        ⟨s.card.write (p.start * 512 + (start + written)) (slice buf written k), s.commands ++ more⟩
        (by omega) (by omega)
      have hlen : (slice buf written k).length = k := slice_length (by omega)
      have hrest : fit - written = k + (fit - (written + k)) := by omega
      have haddr : p.start * 512 + (start + (written + k)) = p.start * 512 + (start + written) + k := by omega
      refine ⟨more ++ cmds, fun c hc => (List.mem_append.mp hc).elim (hmore c) (hcmds c), ?_⟩
      rw [hloop, haddr, hrest, slice_add, Store.write_append, hlen, List.append_assoc]
    unfold writeLoop
    simp only
    by_cases hlt : written < buf.length
    · rw [if_pos hlt]
      by_cases hend : p.bytes ≤ start + written
      · refine ⟨[], fun _ hc => absurd hc List.not_mem_nil, ?_⟩
        rw [if_pos hend, if_neg (show ¬buf.length ≤ fit by omega), ← hdone written s (by omega)]
        rfl
      · have habs : start + written < p.bytes := Nat.not_le.mp hend
        rw [if_neg hend, sector_word habs]
        have hone := within_sector habs
        by_cases hoff : (start + written) % 512 = 0
        · rw [if_neg (not_not.mpr hoff)]
          by_cases hsmall : min (buf.length - written) (p.bytes - (start + written)) < 512
          · have hlen : (slice buf written (min (buf.length - written) (p.bytes - (start + written)))).length =
                min (buf.length - written) (p.bytes - (start + written)) := slice_length (by omega)
            rw [if_pos hsmall, rewrite_sector _ _ (by omega),
              show (p.start + (start + written) / 512) * 512 + 0 = p.start * 512 + (start + written) by omega]
            exact turn _ _ (by omega) (by omega) (List.forall_mem_cons.mpr ⟨hone, List.forall_mem_singleton.mpr hone⟩)
          · have hbatch := accepts_batch (Nat.not_lt.mp hsmall)
            have hlen : (slice buf written (min (min (buf.length - written) (p.bytes - (start + written)) / 512)
                (sdCardBufferMaxBytes / 512) * 512)).length =
                min (min (buf.length - written) (p.bytes - (start + written)) / 512)
                  (sdCardBufferMaxBytes / 512) * 512 := slice_length (by omega)
            rw [if_neg hsmall, Eff.bind_run, transport_write _ _ (by rwa [hlen])]
            simp only
            rw [hlen, show (p.start + (start + written) / 512) * 512 = p.start * 512 + (start + written) by omega]
            exact turn _ _ hbatch.1 (by omega) (List.forall_mem_singleton.mpr (within_batch hoff (by omega)))
        · have hlen : (slice buf written (min (512 - (start + written) % 512) (buf.length - written))).length =
              min (512 - (start + written) % 512) (buf.length - written) := slice_length (by omega)
          obtain ⟨q, hq⟩ := p.sectors
          rw [if_pos hoff, rewrite_sector _ _ (by omega), show (p.start + (start + written) / 512) * 512 +
            (start + written) % 512 = p.start * 512 + (start + written) by omega]
          exact turn _ _ (by omega) (by omega) (List.forall_mem_cons.mpr ⟨hone, List.forall_mem_singleton.mpr hone⟩)
    · have hw : written = fit := by omega
      refine ⟨[], fun _ hc => absurd hc List.not_mem_nil, ?_⟩
      rw [if_neg hlt, if_pos (show buf.length ≤ fit by omega), ← hdone written s hw, show buf.length = written by omega]
      rfl

end Loops

section Flat

variable {d : SectorPartitionDisk SectorDevice} {f : FlatDisk}

/-- A read is what the card holds, up to the end of the partition. -/
theorem read_card (hpos : d.pos ≤ d.partition.bytes) (len : Nat) :
    ∃ cmds, (∀ c ∈ cmds, Within d.partition c) ∧ d.read SectorDevice.transport len =
      (.ok (d.link.card.read (d.partition.start * 512 + d.pos) (min len (d.partition.bytes - d.pos))),
        { d with
          link := { d.link with commands := d.link.commands ++ cmds }
          pos := d.pos + min len (d.partition.bytes - d.pos) }) := by
  unfold SectorPartitionDisk.read
  have hnone : len = 0 ∨ d.partition.bytes ≤ d.pos → (.ok (d.link.card.read (d.partition.start * 512 + d.pos)
      (min len (d.partition.bytes - d.pos))), { d with
        link := { d.link with commands := d.link.commands ++ [] }
        pos := d.pos + min len (d.partition.bytes - d.pos) }) = ((.ok [], d) : Except DiskError Bytes × _) := by
    intro h
    rw [show min len (d.partition.bytes - d.pos) = 0 by omega, Store.read_zero, List.append_nil]
    rfl
  by_cases hzero : len = 0
  · rw [if_pos hzero]
    exact ⟨[], fun _ hc => absurd hc List.not_mem_nil, (hnone (.inl hzero)).symm⟩
  · rw [if_neg hzero]
    by_cases hend : d.partition.bytes ≤ d.pos
    · rw [if_pos hend]
      exact ⟨[], fun _ hc => absurd hc List.not_mem_nil, (hnone (.inr hend)).symm⟩
    · rw [if_neg hend]
      have hin : d.pos + min len (d.partition.bytes - d.pos) ≤ d.partition.bytes := by omega
      obtain ⟨cmds, hcmds, hloop⟩ := readLoop_card hin (min len (d.partition.bytes - d.pos)) [] d.link
        (Nat.zero_le _) (Nat.sub_le _ _)
      simp only [hloop, List.nil_append, List.length_nil, Nat.add_zero, Nat.sub_zero, Store.read_length]
      exact ⟨cmds, hcmds, rfl⟩

/-- A write stores what fits the partition. It fails if that is not all, and
then the position stays. -/
theorem write_card (hw : d.writable = true) (hpos : d.pos ≤ d.partition.bytes) (buf : Bytes) :
    ∃ cmds, (∀ c ∈ cmds, Within d.partition c) ∧ d.write SectorDevice.transport buf =
      if d.pos + buf.length ≤ d.partition.bytes then
        (.ok buf.length, { d with
          link := ⟨d.link.card.write (d.partition.start * 512 + d.pos) buf, d.link.commands ++ cmds⟩
          pos := d.pos + buf.length })
      else
        (.error ⟨.writeZero, "write past end of partition"⟩, { d with
          link := ⟨d.link.card.write (d.partition.start * 512 + d.pos) (buf.take (d.partition.bytes - d.pos)),
            d.link.commands ++ cmds⟩ }) := by
  unfold SectorPartitionDisk.write
  rw [if_neg (by rw [hw]; exact Bool.noConfusion)]
  by_cases hnil : buf = []
  · subst hnil
    refine ⟨[], fun _ hc => absurd hc List.not_mem_nil, ?_⟩
    rw [if_pos rfl, if_pos (by simpa using hpos), Store.write_nil, List.append_nil]
    rfl
  · obtain ⟨cmds, hcmds, hloop⟩ := writeLoop_card d.pos buf rfl buf.length 0 d.link
      (Nat.zero_le _) (Nat.sub_le _ _)
    rw [if_neg hnil, hloop]
    refine ⟨cmds, hcmds, ?_⟩
    by_cases hfits : d.pos + buf.length ≤ d.partition.bytes
    · rw [if_pos hfits, if_pos (by omega), Nat.add_zero, Nat.sub_zero, slice, List.drop_zero,
        List.take_of_length_le (by omega)]
    · rw [if_neg hfits, if_neg (by omega), Nat.add_zero, Nat.sub_zero, slice, List.drop_zero,
        show min buf.length (d.partition.bytes - d.pos) = d.partition.bytes - d.pos by omega]

/-- The bytes of the partition, the position in it and whether it may be
written are those of `f`. -/
structure Shows (d : SectorPartitionDisk SectorDevice) (f : FlatDisk) : Prop where
  bytes : f.bytes = d.link.card.read (d.partition.start * 512) d.partition.bytes
  pos : f.pos = d.pos
  writable : f.writable = d.writable

/-- The sum of a seek fits 64 bits, and a write that starts inside the partition
ends inside it. -/
def Plain (d : SectorPartitionDisk SectorDevice) : DiskOp → Prop
  | .seek s => s.newPos d.pos d.partition.bytes < 2 ^ 64
  | .read _ => True
  | .write buf => d.writable = true → d.pos < d.partition.bytes → d.pos + buf.length ≤ d.partition.bytes

instance (d : SectorPartitionDisk SectorDevice) (op : DiskOp) : Decidable (d.Plain op) :=
  match op with
  | .seek s => inferInstanceAs (Decidable (s.newPos d.pos d.partition.bytes < 2 ^ 64))
  | .read _ => inferInstanceAs (Decidable True)
  | .write _ => inferInstanceAs (Decidable (_ → _ → _))

theorem Shows.length (h : d.Shows f) : f.bytes.length = d.partition.bytes := by
  rw [h.bytes, Store.read_length]

theorem Shows.inside (h : d.Shows f) : d.pos ≤ d.partition.bytes := by
  rw [← h.pos, ← h.length]
  exact f.inside

theorem Shows.seek (h : d.Shows f) {s : SeekFrom} (hs : s.newPos d.pos d.partition.bytes < 2 ^ 64) :
    ((d.seek s).1.map Answer.pos).mapError DiskError.kind = (f.seek s).1 ∧ (d.seek s).2.Shows (f.seek s).2 := by
  rw [← h.pos, ← h.length] at hs
  unfold SectorPartitionDisk.seek
  rw [← h.pos, ← h.length]
  obtain ⟨h0, h1, hok⟩ | ⟨hout, text, herr⟩ := seekTo_cases "seek past end of partition" s hs
  · obtain ⟨hr, hpos, hbytes, hw⟩ := FlatDisk.seek_inside h0 h1
    rw [hok, hr]
    exact ⟨rfl, hbytes.trans h.bytes, hpos, hw.trans h.writable⟩
  · rw [herr, FlatDisk.seek_outside hout]
    exact ⟨rfl, h⟩

theorem Shows.read (h : d.Shows f) (len : Nat) :
    ((d.read SectorDevice.transport len).1.map Answer.bytes).mapError DiskError.kind = (f.read len).1 ∧
      (d.read SectorDevice.transport len).2.Shows (f.read len).2 := by
  obtain ⟨cmds, -, hread⟩ := read_card h.inside len
  have hslice : slice f.bytes f.pos len =
      d.link.card.read (d.partition.start * 512 + d.pos) (min len (d.partition.bytes - d.pos)) := by
    have hin := h.inside
    rw [h.bytes, h.pos, slice, Store.drop_read _ _ _ hin]
    by_cases hle : len ≤ d.partition.bytes - d.pos
    · rw [Store.take_read _ _ _ hle, Nat.min_eq_left hle]
    · rw [List.take_of_length_le (by rw [Store.read_length]; omega), Nat.min_eq_right (by omega)]
  have hres : (f.read len).1 = .ok (.bytes (slice f.bytes f.pos len)) := rfl
  have hpos : (f.read len).2.pos = f.pos + (slice f.bytes f.pos len).length := rfl
  rw [hread, hres, hslice]
  exact ⟨rfl, h.bytes, by rw [hpos, hslice, Store.read_length, h.pos], h.writable⟩

theorem Shows.write (h : d.Shows f) {buf : Bytes} (hplain : d.Plain (.write buf)) :
    ((d.write SectorDevice.transport buf).1.map Answer.count).mapError DiskError.kind = (f.write buf).1 ∧
      (d.write SectorDevice.transport buf).2.Shows (f.write buf).2 := by
  have hin := h.inside
  cases hw : d.writable with
  | false =>
    unfold SectorPartitionDisk.write FlatDisk.write
    rw [if_pos hw, if_pos (h.writable.trans hw)]
    exact ⟨rfl, h⟩
  | true =>
    obtain ⟨cmds, -, hwrite⟩ := write_card hw hin buf
    rw [hwrite]
    by_cases hfits : d.pos + buf.length ≤ d.partition.bytes
    · obtain ⟨hr, hbytes, hpos, hsame⟩ := FlatDisk.write_inside buf (h.writable.trans hw)
        (by rw [h.pos, h.length]; exact hfits)
      rw [if_pos hfits, hr]
      refine ⟨rfl, ?_, hpos.trans (by rw [h.pos]), hsame.trans h.writable⟩
      rw [hbytes, h.pos, h.bytes, ← Store.read_write_inside _ _ _ hfits]
    · -- Only a write at the very end is left, and it stores nothing.
      have hend : d.pos = d.partition.bytes := Nat.le_antisymm hin (Nat.not_lt.mp fun hlt => hfits (hplain hw hlt))
      rw [if_neg hfits, FlatDisk.write_outside (h.writable.trans hw) (by rw [h.pos, h.length]; omega), hend,
        Nat.sub_self, List.take_zero, Store.write_nil]
      exact ⟨rfl, h.bytes, h.pos.trans hend, h.writable⟩

theorem Shows.step (h : d.Shows f) {op : DiskOp} (hplain : d.Plain op) :
    (d.step SectorDevice.transport op).1.mapError DiskError.kind = (f.step op).1 ∧
      (d.step SectorDevice.transport op).2.Shows (f.step op).2 := by
  cases op with
  | seek s => exact h.seek hplain
  | read len => exact h.read len
  | write buf => exact h.write hplain

/-- The position is in the partition, and so is every command given. -/
structure Held (d : SectorPartitionDisk SectorDevice) : Prop where
  pos : d.pos ≤ d.partition.bytes
  within : ∀ c ∈ d.link.commands, Within d.partition c

theorem seekTo_le {past : String} {len pos n : Nat} {s : SeekFrom} (h : seekTo past len pos s = .ok n) : n ≤ len := by
  unfold seekTo at h
  simp only at h
  split at h
  · exact nomatch h
  · split at h
    · exact nomatch h
    next hle => exact Except.ok.inj h ▸ Nat.not_lt.mp hle

theorem Held.step (h : d.Held) (op : DiskOp) :
    (d.step SectorDevice.transport op).2.Held ∧ (d.step SectorDevice.transport op).2.partition = d.partition := by
  have hpos := h.pos
  have happend : ∀ {cmds : List SectorCommand}, (∀ c ∈ cmds, Within d.partition c) →
      ∀ c ∈ d.link.commands ++ cmds, Within d.partition c := fun hcmds c hc =>
    (List.mem_append.mp hc).elim (h.within c) (hcmds c)
  cases op with
  | seek s =>
    change (d.seek s).2.Held ∧ (d.seek s).2.partition = _
    unfold SectorPartitionDisk.seek
    cases hs : seekTo "seek past end of partition" d.partition.bytes d.pos s with
    | ok n => exact ⟨⟨seekTo_le hs, h.within⟩, rfl⟩
    | error e => exact ⟨h, rfl⟩
  | read len =>
    obtain ⟨cmds, hcmds, hread⟩ := read_card hpos len
    change (d.read SectorDevice.transport len).2.Held ∧ (d.read SectorDevice.transport len).2.partition = _
    rw [hread]
    exact ⟨⟨by change d.pos + _ ≤ d.partition.bytes; omega, happend hcmds⟩, rfl⟩
  | write buf =>
    change (d.write SectorDevice.transport buf).2.Held ∧ (d.write SectorDevice.transport buf).2.partition = _
    cases hw : d.writable with
    | false =>
      unfold SectorPartitionDisk.write
      rw [if_pos hw]
      exact ⟨h, rfl⟩
    | true =>
      obtain ⟨cmds, hcmds, hwrite⟩ := write_card hw hpos buf
      rw [hwrite]
      by_cases hfits : d.pos + buf.length ≤ d.partition.bytes
      · rw [if_pos hfits]
        exact ⟨⟨hfits, happend hcmds⟩, rfl⟩
      · rw [if_neg hfits]
        exact ⟨⟨hpos, happend hcmds⟩, rfl⟩

/-- Every operation of the run is plain where it is made. -/
def PlainRun (d : SectorPartitionDisk SectorDevice) : List DiskOp → Prop
  | [] => True
  | op :: ops => d.Plain op ∧ PlainRun (d.step SectorDevice.transport op).2 ops

def decidePlainRun (d : SectorPartitionDisk SectorDevice) : (ops : List DiskOp) → Decidable (d.PlainRun ops)
  | [] => inferInstanceAs (Decidable True)
  | op :: ops =>
    have := decidePlainRun (d.step SectorDevice.transport op).2 ops
    inferInstanceAs (Decidable (_ ∧ _))

instance (d : SectorPartitionDisk SectorDevice) (ops : List DiskOp) : Decidable (d.PlainRun ops) :=
  decidePlainRun d ops

theorem Shows.run {ops : List DiskOp} : ∀ {d : SectorPartitionDisk SectorDevice} {f : FlatDisk}, d.Shows f →
    d.PlainRun ops → (d.run SectorDevice.transport ops).1.map (·.mapError DiskError.kind) = (f.run ops).1 ∧
      (d.run SectorDevice.transport ops).2.Shows (f.run ops).2 := by
  induction ops with
  | nil => exact fun h _ => ⟨rfl, h⟩
  | cons op ops ih =>
    intro d f h hplain
    obtain ⟨hr, hnext⟩ := h.step hplain.1
    obtain ⟨hrs, hlast⟩ := ih hnext hplain.2
    exact ⟨congrArg₂ List.cons hr hrs, hlast⟩

theorem Held.run {d : SectorPartitionDisk SectorDevice} (h : d.Held) (ops : List DiskOp) :
    (d.run SectorDevice.transport ops).2.Held ∧ (d.run SectorDevice.transport ops).2.partition = d.partition := by
  induction ops generalizing d with
  | nil => exact ⟨h, rfl⟩
  | cons op ops ih =>
    obtain ⟨hnext, hsame⟩ := h.step op
    obtain ⟨hlast, hp⟩ := ih hnext
    exact ⟨hlast, hp.trans hsame⟩

/-- `new` and `new_writable`. -/
def new (card : Store) (p : Partition) (writable : Bool) : SectorPartitionDisk SectorDevice :=
  ⟨⟨card, []⟩, p, 0, writable⟩

/-- The partition as it is on the card, as one array. -/
def array (card : Store) (p : Partition) (writable : Bool) : FlatDisk :=
  ⟨card.read (p.start * 512) p.bytes, 0, writable, Nat.zero_le _⟩

/-- Whatever is asked, no sector outside the partition is touched. Where every
operation is plain, the answers and what is left are those of the array. -/
theorem run_flat (card : Store) (p : Partition) (writable : Bool) (ops : List DiskOp) :
    (∀ c ∈ ((new card p writable).run SectorDevice.transport ops).2.link.commands, Within p c) ∧
      ((new card p writable).PlainRun ops →
        ((new card p writable).run SectorDevice.transport ops).1.map (·.mapError DiskError.kind) =
            ((array card p writable).run ops).1 ∧
          ((new card p writable).run SectorDevice.transport ops).2.Shows ((array card p writable).run ops).2) := by
  have hheld : (new card p writable).Held := ⟨Nat.zero_le _, nofun⟩
  have hshows : (new card p writable).Shows (array card p writable) := ⟨rfl, rfl, rfl⟩
  obtain ⟨hlast, hsame⟩ := hheld.run ops
  refine ⟨fun c hc => ?_, hshows.run⟩
  have hin := hlast.within c hc
  rwa [hsame] at hin

private def twoSectors : Partition := ⟨3, 1024, by decide, by decide, by decide⟩

/-- A write over the sector boundary, read back from the end. -/
theorem run_flat_boundary :
    let ops : List DiskOp := [.seek (.start 510), .write [1, 2, 3, 4], .seek (.end_ (-514)), .read 600]
    ((new (fun _ => 0) twoSectors true).run SectorDevice.transport ops).1.map (·.mapError DiskError.kind) =
        ((array (fun _ => 0) twoSectors true).run ops).1 ∧
      ((array (fun _ => 0) twoSectors true).run ops).1.length = 4 := by
  have hplain : (new (fun _ => 0) twoSectors true).PlainRun
      [.seek (.start 510), .write [1, 2, 3, 4], .seek (.end_ (-514)), .read 600] := by
    decide +kernel
  exact ⟨((run_flat _ _ _ _).2 hplain).1, rfl⟩

/-- A write over the end of the partition fails, and its first byte is stored
all the same. -/
theorem write_past_end_stores :
    let ops : List DiskOp := [.seek (.start 1023), .write [1, 2], .seek (.start 1023), .read 1]
    ((new (fun _ => 0) twoSectors true).run SectorDevice.transport ops).1.map (·.mapError DiskError.kind) ≠
      ((array (fun _ => 0) twoSectors true).run ops).1 := by
  decide +kernel

private def hugePartition : Partition := ⟨0, 2 ^ 63 + 512, by decide, by decide, by decide⟩

/-- From the end of a partition of more than 2^63 bytes, the sum of a seek can
pass 2^64, and what is left of it is a position near the start. -/
theorem seek_wraps :
    ((new (fun _ => 0) hugePartition false).run SectorDevice.transport
        [.seek (.end_ 0), .seek (.current Int64.maxValue)]).1.map (·.mapError DiskError.kind) ≠
      ((array (fun _ => 0) hugePartition false).run [.seek (.end_ 0), .seek (.current Int64.maxValue)]).1 := by
  have hcode : ((new (fun _ => 0) hugePartition false).run SectorDevice.transport
      [.seek (.end_ 0), .seek (.current Int64.maxValue)]).1.map (·.mapError DiskError.kind) =
      [.ok (.pos (2 ^ 63 + 512)), .ok (.pos 511)] := by
    decide +kernel
  rw [hcode, FlatDisk.seek_behind_end _ (by decide)]
  simp

end Flat

end SectorPartitionDisk

end Multi64
