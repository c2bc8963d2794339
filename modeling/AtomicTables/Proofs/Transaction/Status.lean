import AtomicTables.Proofs.BitSet
import AtomicTables.Transaction.Status

namespace AtomicTables

namespace ExitCode

theorem ofRaw_raw (code : ExitCode) : ofRaw code.raw = code := by
  cases code <;> rfl

theorem raw_ofRaw {byte : BitVec 8} (known : ofRaw byte ≠ abortUnknown) : (ofRaw byte).raw = byte := by
  rw [ofRaw] at known ⊢
  split
  · rename_i code found
    have same := List.find?_some found
    exact beq_iff_eq.1 same
  · rename_i missing
    rw [missing] at known
    exact absurd rfl known

end ExitCode

namespace Status

theorem codeByte_pack (code : ExitCode) (reason : BitVec 8) (info : ExitInfo) :
    (pack code reason info).codeByte = code.raw := by
  refine BitVec.eq_of_getLsbD_eq fun i bound => ?_
  have below : i < 8 ∧ i < 16 ∧ i < 32 := by omega
  simp [pack, codeByte, below]

theorem codeByte_withInfo (s : Status) (info : ExitInfo) : (s.withInfo info).codeByte = s.codeByte := by
  refine BitVec.eq_of_getLsbD_eq fun i bound => ?_
  have below : i < 8 ∧ i < 16 := by omega
  simp [withInfo, codeByte, below]

theorem code_pack (code : ExitCode) (reason : BitVec 8) (info : ExitInfo) :
    (pack code reason info).code = code := by
  rw [Status.code, codeByte_pack, ExitCode.ofRaw_raw]

theorem info_pack (code : ExitCode) (reason : BitVec 8) (info : ExitInfo) :
    (pack code reason info).info = info.truncate := by
  have bits : (pack code reason info).raw.extractLsb' 16 8 = info.bits := by
    refine BitVec.eq_of_getLsbD_eq fun i bound => ?_
    have above : ¬ 16 + i < 16 ∧ 16 + i < 32 := by omega
    have code_ends : code.raw.getLsbD (16 + i) = false := BitVec.getLsbD_of_ge _ _ (by omega)
    have reason_ends (reason : BitVec 8) : reason.getLsbD (16 + i - 8) = false :=
      BitVec.getLsbD_of_ge _ _ (by omega)
    simp [pack, bound, above, code_ends, reason_ends]
    rfl
  rw [Status.info, bits]

theorem reason_pack_explicit (reason : BitVec 8) (info : ExitInfo) :
    (pack .abortExplicit reason info).reason = reason := by
  rw [Status.reason, codeByte_pack, if_pos rfl]
  refine BitVec.eq_of_getLsbD_eq fun i bound => ?_
  have inside : ¬ 8 + i < 8 ∧ 8 + i < 16 ∧ 8 + i < 32 := by omega
  simp [pack, bound, inside]

theorem reason_of_code_ne {s : Status} (tacit : s.code ≠ .abortExplicit) : s.reason = 0 :=
  if_neg fun byte => tacit (by rw [Status.code, byte, ExitCode.ofRaw_raw])

theorem reason_pack (code : ExitCode) (reason : BitVec 8) (info : ExitInfo) :
    (pack code reason info).reason = if code = .abortExplicit then reason else 0 := by
  split
  · rename_i explicit
    subst explicit
    exact reason_pack_explicit reason info
  · rename_i tacit
    exact reason_of_code_ne (by rwa [code_pack])

theorem pack_pack (code : ExitCode) (reason : BitVec 8) {info : ExitInfo} (named : info.truncate = info) :
    let s := pack code reason info
    pack s.code s.reason s.info = s := by
  intro s
  rw [code_pack, reason_pack, info_pack, named]
  simp only [s, pack]
  split <;> rfl

theorem reason_withInfo (s : Status) (info : ExitInfo) : (s.withInfo info).reason = s.reason := by
  have byte : (s.withInfo info).raw.extractLsb' 8 8 = s.raw.extractLsb' 8 8 := by
    refine BitVec.eq_of_getLsbD_eq fun i bound => ?_
    have below : 8 + i < 16 := by omega
    simp [withInfo, bound, below]
  rw [Status.reason, Status.reason, codeByte_withInfo, byte]

theorem getLsbD_withInfo (s : Status) (info : ExitInfo) (i : Nat) :
    (s.withInfo info).raw.getLsbD i ↔ s.raw.getLsbD i ∨ 16 ≤ i ∧ info.has (i - 16) := by
  have shifted : (info.bits.setWidth 32 <<< 16).getLsbD i =
      (decide (i < 32) && !decide (i < 16) && (decide (i - 16 < 32) && info.has (i - 16))) := by
    rw [BitVec.getLsbD_shiftLeft, BitVec.getLsbD_setWidth]
    rfl
  rw [withInfo, BitVec.getLsbD_or, Bool.or_eq_true, shifted]
  cases has : info.has (i - 16) with
  | false => simp
  | true =>
      have byte : i - 16 < 8 := BitVec.lt_of_getLsbD has
      refine or_congr_right ?_
      simp only [Bool.and_true, Bool.and_eq_true, Bool.not_eq_true', decide_eq_true_iff, decide_eq_false_iff_not,
        and_true]
      omega

theorem has_info (s : Status) (i : Nat) :
    s.info.has i ↔ s.raw.getLsbD (16 + i) ∧ i < exitInfoLayout.names.length := by
  have byte : (⟨s.raw.extractLsb' 16 8⟩ : ExitInfo).has i = (decide (i < 8) && s.raw.getLsbD (16 + i)) :=
    BitVec.getLsbD_extractLsb' ..
  rw [Status.info, BitSet.has_truncate, byte, Bool.and_eq_true, Bool.and_eq_true, decide_eq_true_iff,
    decide_eq_true_iff]
  have named : i < exitInfoLayout.names.length → i < 8 := fun h => Nat.lt_trans h (by decide)
  exact ⟨fun ⟨⟨_, bit⟩, h⟩ => ⟨bit, h⟩, fun ⟨bit, h⟩ => ⟨⟨named h, bit⟩, h⟩⟩

theorem toNat_codeByte (s : Status) : s.codeByte.toNat = s.raw.toNat % 256 := by
  rw [codeByte, BitVec.extractLsb'_toNat]
  rfl

theorem toNat_reason (s : Status) : s.reason.toNat =
    if s.raw.toNat % 256 = ExitCode.abortExplicit.raw.toNat then s.raw.toNat / 256 % 256 else 0 := by
  have byte : s.codeByte = ExitCode.abortExplicit.raw ↔
      s.raw.toNat % 256 = ExitCode.abortExplicit.raw.toNat := by
    rw [← toNat_codeByte, BitVec.toNat_inj]
  rw [Status.reason]
  simp only [byte]
  split
  · rw [BitVec.extractLsb'_toNat, Nat.shiftRight_eq_div_pow]
  · rfl

theorem isSuccess_iff (s : Status) : s.isSuccess ↔ s.code = .success := by
  rw [isSuccess, beq_iff_eq, Status.code]
  constructor
  · intro byte
    rw [byte, ExitCode.ofRaw_raw]
  · intro success
    rw [← success]
    exact (ExitCode.raw_ofRaw (by rw [success]; nofun)).symm

theorem isSuccess_ofHardware (word : BitVec 32) : (ofHardware word).isSuccess = false := by
  simp only [isSuccess, ofHardware, codeByte_pack]
  split
  · rfl
  · split
    · rfl
    · split
      · rfl
      · split <;> rfl

theorem code_ofHardware_ne {word : BitVec 32} (tacit : word.getLsbD 0 = false) :
    (ofHardware word).code ≠ .abortExplicit := by
  simp only [ofHardware, code_pack, tacit, Bool.false_eq_true, if_false]
  split
  · nofun
  · split
    · nofun
    · split <;> nofun

theorem code_ofHardware_iff (word : BitVec 32) :
    (ofHardware word).code = .abortExplicit ↔ word.getLsbD 0 := by
  cases explicit : word.getLsbD 0 with
  | true => simp [ofHardware, code_pack, explicit]
  | false => simp [code_ofHardware_ne explicit]

theorem reason_ofHardware {word : BitVec 32} (explicit : word.getLsbD 0) :
    (ofHardware word).reason = word.extractLsb' 24 8 := by
  rw [ofHardware, if_pos explicit, reason_pack_explicit]

theorem info_ofHardware (word : BitVec 32) : (ofHardware word).info =
    (if word.getLsbD 1 then ExitInfo.retry else ∅) ∪ (if word.getLsbD 5 then ExitInfo.nested else ∅) := by
  simp only [ofHardware, info_pack]
  cases word.getLsbD 1 <;> cases word.getLsbD 5 <;> decide

theorem flagSet_not_mem_ofHardware (word : BitVec 32) :
    ¬ (ofHardware word).info.contains ExitInfo.flagSet := by
  rw [info_ofHardware]
  cases word.getLsbD 1 <;> cases word.getLsbD 5 <;> decide

theorem ne_started_of_tacit {word : BitVec 32} (tacit : word.getLsbD 0 = false) : word ≠ started := by
  rintro rfl
  cases tacit

theorem getLsbD_explicitWord (reason : BitVec 8) (nested : Bool) :
    (explicitWord reason nested).getLsbD 0 := by
  cases nested <;> simp [explicitWord]

theorem extractLsb'_explicitWord (reason : BitVec 8) (nested : Bool) :
    (explicitWord reason nested).extractLsb' 24 8 = reason := by
  refine BitVec.eq_of_getLsbD_eq fun i bound => ?_
  have inside : ¬ 24 + i < 24 ∧ 24 + i < 32 ∧ ¬ 24 + i = 5 := by omega
  cases nested <;> simp [explicitWord, bound, inside]

theorem explicitWord_ne_started (reason : BitVec 8) (nested : Bool) :
    explicitWord reason nested ≠ started := by
  intro same
  have bit := congrArg (fun word : BitVec 32 => word.getLsbD 1) same
  cases nested <;> simp [explicitWord, started] at bit

end Status

end AtomicTables
