/-
CashStratum/Sv2ProxySolve.lean

Blocks that are found on declared jobs (`sv2_jdc.c`, `generator.c`).

The declaration client builds two splits of one coinbase, the declared one with its witness and
the one that is hashed, and hands both to the proxy of the channel.  When a share on such a job
has gone up, the share thread puts the hashed header together once more from the strings of the
notify; if it meets the network's difficulty, the declared coinbase goes out with the hole
filled in.

The hand-over is two steps of the client's thread: it builds the job from the layout of the
channel, and stages it under the lock.  A `SetExtranoncePrefix` that the receive thread handles
between the two finds nothing to drop, and the job goes down with one prefix in its coinbase and
another one beside it.  Where the prefix stays (`JobHandOver.Unmoved`) every job of the ring is
a declared one under the prefix of the channel, what it hashes fits the buffers of the solve
path, and both coinbases have one id.
-/
import CashStratum.JdcDeclare
import CashStratum.Sv2CbOutputs
import CashStratum.Sv2ProxyShare
import CashStratum.Sv2Target

namespace CashStratum

/-! ### The declared coinbase -/

/-- The commitment output of a template, as the node serialises it, and the witness it was
computed over. -/
structure WitnessCommitment where
  output : Bytes
  reserved : Hash256
  serialised : TxOutBytes output

/-- `sv2_jdc_template`, with what a coinbase is built from. -/
structure JdcCoinbaseTemplate extends Sv2JdcTemplate where
  cbVersion : UInt32
  cbSequence : UInt32
  cbLocktime : UInt32
  reward : Nat
  scriptSigPrefix : Bytes
  commitment : Option WitnessCommitment

/-- The buffer for the outputs: `SV2_MAX_B0_255 + SV2_JDC_MAX_OUTPUT + 16`. -/
def jdcOutputsMax : Nat := 255 + 128 + 16

/-- The spec of `sess_declare`. -/
def JdcCoinbaseTemplate.spec (t : JdcCoinbaseTemplate) (hole : Nat) (outputs : Bytes) :
    Sv2CbSpec where
  version := t.cbVersion
  nsequence := t.cbSequence
  locktime := t.cbLocktime
  ssigPrefix := t.scriptSigPrefix
  holeLen := hole
  outputs
  witnessReserved := t.commitment.map WitnessCommitment.reserved

/-- The material of `sess_declare` for a channel, with the token of the answer. -/
def sessDeclare (t : JdcCoinbaseTemplate) (chan : JdcChannel) (payouts token : Bytes) :
    Option Sv2JdcCustomJob :=
  let hole := chan.extranoncePrefixLen + chan.extranonceSize
  if ¬ chan.Declarable then none
  else
    (sv2CbBuildOutputs jdcOutputsMax payouts t.reward
        ((t.commitment.map WitnessCommitment.output).getD [])).bind fun outputs =>
      (sv2CbDeclareParts (t.spec hole outputs)).bind fun (dcbPrefix, dcbSuffix) =>
        (sv2CbDeclareParts { t.spec hole outputs with witnessReserved := none }).map
          fun (lcbPrefix, lcbSuffix) =>
            { t := t.toSv2JdcTemplate
              token
              outputs
              lcbPrefix
              lcbSuffix
              dcbPrefix
              dcbSuffix
              holeLen := hole }

/-! ### Handing a job over -/

/-- A job that has been built and is not staged, and the prefix that was read for it. -/
structure BuiltJob where
  extranoncePrefix : Bytes
  job : Sv2ProxyJob

namespace Sv2Proxy

/-- `sv2_proxy_set_custom_job`, up to the lock. -/
def buildJob (sp : Sv2Proxy) (cj : Sv2JdcCustomJob) (current : Bool) : Option BuiltJob :=
  if cj.token = [] ∨ cj.outputs = [] then none
  else if cj.holeLen ≠ sp.extranoncePrefix.length + sp.channel.extranonceSize then none
  else if ¬current then none
  else if cj.t.merklePath.length > maxMerklePath then none
  else some ⟨sp.extranoncePrefix, sp.stageJob cj⟩

/-- The staging of what was built. -/
def stageBuilt (sp : Sv2Proxy) (built : BuiltJob) : Sv2Proxy :=
  { sp with
    nextRequestId := sp.nextRequestId + 1
    customStage := some { requestId := sp.nextRequestId + 1, job := built.job } }

end Sv2Proxy

/-- The proxy, and the job that the client's thread is about to stage. -/
structure JobHandOver where
  sp : Sv2Proxy
  built : Option BuiltJob

namespace JobHandOver

/-- What can happen.  A submission is `build` and `stage`, and no `frame`. -/
inductive Event
  | frame (e : Sv2Proxy.Event)
  | build (t : JdcCoinbaseTemplate) (chan : JdcChannel) (payouts token : Bytes) (current : Bool)
  | stage

def step (s : JobHandOver) : Event → JobHandOver
  | .frame (.setCustomJob _ _) => s
  | .frame e => { s with sp := s.sp.step e }
  | .build t chan payouts token current =>
    { s with
      built := (sessDeclare t chan payouts token).bind fun cj => s.sp.buildJob cj current }
  | .stage =>
    match s.built with
    | none => s
    | some built => { sp := s.sp.stageBuilt built, built := none }

/-- The channel has the prefix still that the job was built for. -/
def Unmoved (s : JobHandOver) : Event → Prop
  | .stage => ∀ built ∈ s.built, built.extranoncePrefix = s.sp.extranoncePrefix
  | _ => True

instance (s : JobHandOver) : DecidablePred s.Unmoved
  | .stage => inferInstanceAs (Decidable (∀ built ∈ s.built, _ = _))
  | .frame _ => isTrue trivial
  | .build _ _ _ _ _ => isTrue trivial

end JobHandOver

/-! ### The solve path -/

/-- `struct sv2_jdc_solution` -/
structure Sv2JdcSolution where
  t : Sv2JdcTemplate
  coinbase : Bytes
  extranonce : Bytes
  prevHash : Bytes
  version : UInt32
  ntime : UInt32
  nonce : UInt32
  nbits : UInt32
deriving DecidableEq

/-- The buffer for the hashed coinbase. -/
def customCoinbaseMax : Nat := 1024

/-- The root that `sv2_proxy_custom_solve` folds. -/
def customRoot (ni : NotifyInstance) (coinbase : Bytes) : Hash256 :=
  ni.merklehash.foldl (fun root merkle =>
    genHash (root.bytes ++ (hex2bin merkle 32).getD (List.replicate 32 0))) (genHash coinbase)

/-- The header that `sv2_proxy_custom_solve` puts together, or `none` where it gives up. -/
def customHeader (ni : NotifyInstance) (en2 : Bytes) (version ntime nonce : UInt32) :
    Option Bytes :=
  let c1 := ni.coinb1len
  let c2 := ni.coinbase2.length / 2
  if c1 + en2.length + c2 > customCoinbaseMax ∨ c1 < 1 ∨ en2.length < 1 then none
  else
    let coinbase :=
      (hex2bin (ni.coinbase1.take (c1 * 2)) c1).getD (List.replicate c1 0) ++ en2 ++
        (hex2bin ni.coinbase2 c2).getD (List.replicate c2 0)
    let prevbin := (hex2bin ni.prevhash 32).getD (List.replicate 32 0)
    some
      (leBytes 4 version.toNat ++ flip32 prevbin ++ (customRoot ni coinbase).bytes ++
        leBytes 4 ntime.toNat ++ leBytes 4 (strtoulHex ni.nbit).toNat ++ leBytes 4 nonce.toNat)

variable (meets : Hash256 → UInt32 → Bool)

/-- `sv2_proxy_custom_solve`: what `sv2_jdc_solved` is called with, if it is.  `meets` is the
comparison of `diff_from_target` of a hash with 99.9 per cent of the greater of one and
`sv2_diff_from_nbits`, in doubles. -/
def customSolve (ni : NotifyInstance) (fullEn en2 : Bytes) (version ntime nonce : UInt32) :
    Option Sv2JdcSolution :=
  ni.custom.bind fun custom =>
    (customHeader ni en2 version ntime nonce).bind fun header =>
      let nbits := strtoulHex ni.nbit
      if meets (genHash header) nbits then
        some
          { t := custom.declared.tmpl
            coinbase := custom.declared.dcbPrefix ++ fullEn ++ custom.declared.dcbSuffix
            extranonce := fullEn
            prevHash := (header.drop 4).take 32
            version
            ntime
            nonce
            nbits }
      else none

/-- `sv2_proxy_submit_share` for a share `sub` whose message has gone up. -/
def submittedSolve (channel : Sv2ProxyChannel) (ni : NotifyInstance) (sub : SubmitSharesExtended) :
    Option Sv2JdcSolution :=
  ni.custom.bind fun custom =>
    if custom.enPrefix.length + sub.extranonce.length ≤ maxB032 then
      customSolve meets ni (custom.enPrefix ++ sub.extranonce)
        (sub.extranonce.drop channel.padLen) sub.version sub.ntime sub.nonce
    else none

variable {meets}

/-! ### What is declared -/

/-- Both splits of a declared coinbase: they are one transaction, which fits the buffer of the
solve path. -/
structure DeclaredMaterial (cj : Sv2JdcCustomJob) : Prop where
  hole : cj.holeLen ≤ maxB032
  pos : 1 ≤ cj.lcbPrefix.length
  fits : cj.lcbPrefix.length + cj.holeLen + cj.lcbSuffix.length ≤ customCoinbaseMax
  txid : ∀ e : Bytes, e.length = cj.holeLen →
    sv2BitcoinTxid (cj.dcbPrefix ++ e ++ cj.dcbSuffix)
        = some (genHash (cj.lcbPrefix ++ e ++ cj.lcbSuffix)) ∧
      sv2BitcoinTxid (cj.lcbPrefix ++ e ++ cj.lcbSuffix)
        = some (genHash (cj.lcbPrefix ++ e ++ cj.lcbSuffix))

theorem sessDeclare_spec {t : JdcCoinbaseTemplate} {chan : JdcChannel} {payouts token : Bytes}
    {cj : Sv2JdcCustomJob} (h : sessDeclare t chan payouts token = some cj) :
    DeclaredMaterial cj := by
  dsimp only [sessDeclare] at h
  split_ifs at h with hchan
  obtain ⟨outputs, houtputs, h⟩ := Option.bind_eq_some_iff.mp h
  obtain ⟨⟨dpre, dsuf⟩, hdcb, h⟩ := Option.bind_eq_some_iff.mp h
  obtain ⟨⟨lpre, lsuf⟩, hlcb, rfl⟩ := Option.map_eq_some_iff.mp h
  obtain ⟨hblob, hlen⟩ := sv2CbBuildOutputs_spec (by
    cases t.commitment with
    | none => exact Or.inl rfl
    | some commitment => exact Or.inr commitment.serialised) houtputs
  obtain ⟨-, -, hmax⟩ := hchan
  set hole := chan.extranoncePrefixLen + chan.extranonceSize with hhole
  obtain ⟨hssig, -, -, hpre, hsuf⟩ := sv2CbDeclareParts_eq_some hlcb
  -- the parts of the hashed split, and their lengths
  have hpreLen : lpre.length = 42 + 1 + t.scriptSigPrefix.length - 1 := by
    rw [hpre]
    simp [Sv2CbSpec.mark, JdcCoinbaseTemplate.spec]
    omega
  have hsufLen : lsuf.length = 8 + outputs.length := by
    rw [hsuf]
    simp [Sv2CbSpec.stack, JdcCoinbaseTemplate.spec]
    omega
  have hssig' : t.scriptSigPrefix.length + hole ≤ 100 := hssig
  have hout : outputs.length ≤ 399 := hlen
  refine
    { hole := hmax
      pos := ?_
      fits := ?_
      txid := ?_ }
  · show 1 ≤ lpre.length
    omega
  · show lpre.length + hole + lsuf.length ≤ 1024
    omega
  · intro e he
    show sv2BitcoinTxid (dpre ++ e ++ dsuf) = some (genHash (lpre ++ e ++ lsuf)) ∧
      sv2BitcoinTxid (lpre ++ e ++ lsuf) = some (genHash (lpre ++ e ++ lsuf))
    have hlegacy := filled_eq_legacy hlcb he rfl
    have hdeclared := sv2BitcoinTxid_filled hdcb hblob he
    rw [hlegacy]
    exact ⟨hdeclared, sv2BitcoinTxid_legacy hlcb hblob he⟩

/-! ### Declared jobs in the ring -/

namespace Sv2Proxy

/-- A declared job is the hashed split around the layout of the channel. -/
def IsDeclaredJob (sp : Sv2Proxy) (job : Sv2ProxyJob) : Prop :=
  ∀ declared ∈ job.custom, ∃ cj, DeclaredMaterial cj ∧
    cj.holeLen = sp.extranoncePrefix.length + sp.channel.extranonceSize ∧
    job.coinb1 = cj.lcbPrefix ++ sp.extranoncePrefix ++ List.replicate sp.channel.padLen 0 ∧
    job.coinb2 = cj.lcbSuffix ∧
    declared = { tmpl := cj.t, dcbPrefix := cj.dcbPrefix, dcbSuffix := cj.dcbSuffix }

theorem isDeclaredJob_of_none {sp : Sv2Proxy} {job : Sv2ProxyJob} (h : job.custom = none) :
    IsDeclaredJob sp job := by
  intro declared hdeclared
  rw [h] at hdeclared
  cases hdeclared

/-- Being a declared job is a rule for jobs. -/
theorem jobRule_isDeclaredJob : JobRule IsDeclaredJob where
  congr := by
    intro sp sp' job h hlayout hchannel declared hdeclared
    rw [hlayout, hchannel]
    exact h declared hdeclared
  tip _ hnone _ := isDeclaredJob_of_none hnone
  number _ _ h := h
  rebuild := by
    intro sp sp' job _ hnone _
    refine isDeclaredJob_of_none ?_
    rw [rebuildJob]
    split_ifs <;> exact hnone

/-- A job that is built is a declared one, for the prefix that was read. -/
theorem isDeclaredJob_buildJob {sp : Sv2Proxy} {cj : Sv2JdcCustomJob} {current : Bool}
    {built : BuiltJob} (hcj : DeclaredMaterial cj) (h : sp.buildJob cj current = some built) :
    built.extranoncePrefix = sp.extranoncePrefix ∧ built.job.custom.isSome = true ∧
      IsDeclaredJob sp built.job := by
  rw [buildJob] at h
  split_ifs at h with hempty hhole hcurrent hlen
  obtain rfl := Option.some.inj h
  refine ⟨rfl, rfl, ?_⟩
  intro declared hdeclared
  obtain rfl := Option.some.inj hdeclared
  exact ⟨cj, hcj, not_not.mp hhole, rfl, rfl, rfl⟩

/-- A notify of a declared job, under the prefix that it carries. -/
def IsDeclaredNotify (channel : Sv2ProxyChannel) (ni : NotifyInstance) : Prop :=
  ∃ (sender : Sv2Proxy) (job : Sv2ProxyJob) (clean : Bool),
    sender.channel = channel ∧ IsDeclaredJob sender job ∧ ni = sender.notifyInstance job clean

theorem IsNotifyOf.declared {sp : Sv2Proxy} {ni : NotifyInstance}
    (h : IsNotifyOf IsDeclaredJob sp ni) : IsDeclaredNotify sp.channel ni := by
  obtain ⟨sender, job, clean, hlayout, hchannel, hjob, -, rfl⟩ := h
  exact ⟨sender, job, clean, hchannel,
    jobRule_isDeclaredJob.congr hjob hlayout hchannel, rfl⟩

end Sv2Proxy

namespace JobHandOver

open Sv2Proxy

/-- The jobs of the ring, of the stage and of the client's thread are declared ones, and so are
those that were notified. -/
structure Inv (channel : Sv2ProxyChannel) (s : JobHandOver) : Prop where
  layout : s.sp.channel = channel
  carries : Carries IsDeclaredJob s.sp
  built : ∀ built ∈ s.built, built.job.custom.isSome = true ∧
    IsDeclaredJob { s.sp with extranoncePrefix := built.extranoncePrefix } built.job
  notifies : ∀ ni ∈ s.sp.notifies, IsDeclaredNotify channel ni

variable {channel : Sv2ProxyChannel} {s : JobHandOver}

theorem inv_frame (h : s.Inv channel) (e : Sv2Proxy.Event) (he : s.sp.Admits IsDeclaredJob e) :
    Inv channel { s with sp := s.sp.step e } where
  layout := (s.sp.step_channel e).trans h.layout
  carries := h.carries.step jobRule_isDeclaredJob e he
  built := by
    intro built hbuilt
    obtain ⟨hsome, hjob⟩ := h.built built hbuilt
    exact ⟨hsome, jobRule_isDeclaredJob.congr hjob rfl (s.sp.step_channel e)⟩
  notifies := by
    intro ni hni
    obtain hold | hnew := (h.carries.sends_step jobRule_isDeclaredJob e he).notifies ni hni
    · exact h.notifies ni hold
    · have hdeclared := hnew.declared
      rwa [s.sp.step_channel e, h.layout] at hdeclared

/-- The hand-over is the one step that the layout matters for. -/
theorem inv_stage (h : s.Inv channel) (hunmoved : s.Unmoved .stage) :
    Inv channel (s.step .stage) := by
  rw [step]
  split
  · exact h
  · next built hbuilt =>
      obtain ⟨hsome, hjob⟩ := h.built built hbuilt
      have hlayout := hunmoved built hbuilt
      refine
        { layout := h.layout
          carries := ⟨?_, ?_⟩
          built := fun _ hnone => by cases hnone
          notifies := h.notifies }
      · intro slot job hslot
        exact jobRule_isDeclaredJob.congr (h.carries.ring slot job hslot) rfl rfl
      · intro stage hstage
        obtain rfl := Option.some.inj hstage
        exact ⟨hsome, jobRule_isDeclaredJob.congr hjob hlayout.symm rfl⟩

theorem inv_step (e : Event) (hunmoved : s.Unmoved e) (h : s.Inv channel) :
    Inv channel (s.step e) := by
  cases e with
  | frame e =>
    cases e with
    | setCustomJob cj current => exact h
    | newExtendedMiningJob j =>
      exact inv_frame h (.newExtendedMiningJob j) (isDeclaredJob_of_none rfl)
    | _ => exact inv_frame h _ trivial
  | build t chan payouts token current =>
    refine
      { layout := h.layout
        carries := h.carries
        built := ?_
        notifies := h.notifies }
    intro built hbuilt
    obtain ⟨cj, hcj, hbuild⟩ := Option.bind_eq_some_iff.mp hbuilt
    obtain ⟨hlayout, hsome, hjob⟩ := isDeclaredJob_buildJob (sessDeclare_spec hcj) hbuild
    exact ⟨hsome, jobRule_isDeclaredJob.congr hjob hlayout rfl⟩
  | stage => exact inv_stage h hunmoved

end JobHandOver

/-! ### The share -/

/-- The solve path of a share `s` that went up as `sub`: the header is the hashed one, and one
solution goes out exactly when its hash meets the difficulty; the solution has the fields of the
header, and a coinbase with the id of the hashed one. -/
structure Solves (meets : Hash256 → UInt32 → Bool) (channel : Sv2ProxyChannel)
    (ni : NotifyInstance) (s : Submission) (sub : SubmitSharesExtended) : Prop where
  header : customHeader ni (sub.extranonce.drop channel.padLen) sub.version sub.ntime sub.nonce
    = some s.swap
  missed : meets s.hash (strtoulHex ni.nbit) = false → submittedSolve meets channel ni sub = none
  solved : meets s.hash (strtoulHex ni.nbit) = true → ∃ sol custom,
    submittedSolve meets channel ni sub = some sol ∧ ni.custom = some custom ∧
    sol.t = custom.declared.tmpl ∧
    (∃ prevHash root : Hash256, sol.prevHash = prevHash.bytes ∧
      s.swap = wireHeader sol.version prevHash root sol.ntime sol.nbits sol.nonce) ∧
    sol.extranonce = custom.enPrefix ++ sub.extranonce ∧
    sol.coinbase = custom.declared.dcbPrefix ++ sol.extranonce ++ custom.declared.dcbSuffix ∧
    sv2BitcoinTxid sol.coinbase = some (genHash s.coinbase) ∧
    sv2BitcoinTxid s.coinbase = some (genHash s.coinbase)

/-- The branch of a notify is folded from its text. -/
theorem customRoot_eq {ni : NotifyInstance} {path : List Hash256}
    (h : ni.merklehash = path.map fun node => bin2hex node.bytes) (coinbase : Bytes) :
    customRoot ni coinbase = sv2MerkleRootFromPath (genHash coinbase) path := by
  rw [customRoot, h, List.foldl_map, sv2MerkleRootFromPath]
  congr 1
  funext root node
  rw [hex2bin_bin2hex_of_length node.length_bytes]
  rfl

section Share

variable {channel : Sv2ProxyChannel} {sender : Sv2Proxy} {job : Sv2ProxyJob} {clean : Bool}
  {s : Submission} {sub : SubmitSharesExtended} {var : Bytes}

/-- The header that the solve path puts together, where the coinbase fits its buffer. -/
theorem customHeader_eq (hsub : Submitted channel job s sub var)
    (hfits : job.coinb1.length + var.length + job.coinb2.length ≤ customCoinbaseMax)
    (hpos : 1 ≤ job.coinb1.length) :
    customHeader (sender.notifyInstance job clean) var sub.version sub.ntime sub.nonce
      = some s.swap := by
  set ni := sender.notifyInstance job clean with hni
  have hhalf : ni.coinbase2.length / 2 = job.coinb2.length := by
    show (bin2hex job.coinb2).length / 2 = job.coinb2.length
    rw [length_bin2hex, Nat.mul_div_cancel_left _ (by omega : 0 < 2)]
  -- the strings of the notify, read back
  have hcoinb1 : (hex2bin (ni.coinbase1.take (ni.coinb1len * 2)) ni.coinb1len).getD
      (List.replicate ni.coinb1len 0) = job.coinb1 := by
    show (hex2bin ((bin2hex job.coinb1).take (job.coinb1.length * 2)) job.coinb1.length).getD _ = _
    rw [List.take_of_length_le (by rw [length_bin2hex]; omega), hex2bin_bin2hex, Option.getD_some]
  have hcoinb2 : (hex2bin ni.coinbase2 (ni.coinbase2.length / 2)).getD
      (List.replicate (ni.coinbase2.length / 2) 0) = job.coinb2 := by
    rw [hhalf]
    show (hex2bin (bin2hex job.coinb2) job.coinb2.length).getD _ = _
    rw [hex2bin_bin2hex, Option.getD_some]
  have hprev : flip32 ((hex2bin ni.prevhash 32).getD (List.replicate 32 0)) =
      job.prevHash.bytes := by
    show flip32 ((hex2bin (bin2hex (flip32 job.prevHash.bytes)) 32).getD _) = _
    rw [hex2bin_bin2hex_of_length (length_flip32 _), Option.getD_some,
      flip32_of_length (length_flip32 job.prevHash), flip32_of_length job.prevHash.length_bytes,
      flipWords_flipWords _ (by simp)]
  have hnbits : strtoulHex ni.nbit = job.nbits := strtoulHex_fmt08x job.nbits
  have hcheck : ¬ (ni.coinb1len + var.length + ni.coinbase2.length / 2 > customCoinbaseMax ∨
      ni.coinb1len < 1 ∨ var.length < 1) := by
    have hvar := hsub.pos
    have hlen : ni.coinb1len = job.coinb1.length := rfl
    omega
  dsimp only [customHeader]
  rw [if_neg hcheck, hcoinb1, hcoinb2, hprev, hnbits, ← hsub.coinbase, customRoot_eq rfl,
    hsub.header, wireHeader]

/-- **The share of a declared job** is solved. -/
theorem Submitted.solves (hsub : Submitted channel job s sub var)
    (hchannel : sender.channel = channel) (hdeclared : sender.IsDeclaredJob job)
    (hsome : job.custom.isSome = true) :
    Solves meets channel (sender.notifyInstance job clean) s sub := by
  obtain ⟨declared, hcustom⟩ := Option.isSome_iff_exists.mp hsome
  obtain ⟨cj, hcj, hhole, hcoinb1, hcoinb2, rfl⟩ := hdeclared declared hcustom
  have hlen := hsub.length
  have hdrop : sub.extranonce.drop channel.padLen = var := by
    rw [hsub.extranonce]
    exact List.drop_left' (List.length_replicate ..)
  have hextra : sub.extranonce.length = channel.extranonceSize := by
    rw [hsub.extranonce, List.length_append, List.length_replicate, hlen]
  -- the whole hole, and the hashed coinbase around it
  have hfull : (sender.extranoncePrefix ++ sub.extranonce).length = cj.holeLen := by
    rw [List.length_append, hextra, hhole, hchannel]
  have hcoinbase : s.coinbase =
      cj.lcbPrefix ++ (sender.extranoncePrefix ++ sub.extranonce) ++ cj.lcbSuffix := by
    rw [hsub.coinbase, hcoinb1, hcoinb2, hsub.extranonce, hchannel]
    simp only [List.append_assoc]
  have hheader : customHeader (sender.notifyInstance job clean) var sub.version sub.ntime sub.nonce
      = some s.swap := by
    refine customHeader_eq hsub ?_ ?_
    · rw [hcoinb1, hcoinb2, hchannel]
      have hmax := hcj.fits
      simp only [List.length_append, List.length_replicate]
      rw [hhole, hchannel] at hmax
      omega
    · rw [hcoinb1]
      have hpos := hcj.pos
      simp only [List.length_append]
      omega
  have hni : (sender.notifyInstance job clean).custom =
      some ⟨{ tmpl := cj.t, dcbPrefix := cj.dcbPrefix, dcbSuffix := cj.dcbSuffix },
        sender.extranoncePrefix⟩ := by
    show job.custom.map _ = _
    rw [hcustom]
    rfl
  have hle : sender.extranoncePrefix.length + sub.extranonce.length ≤ maxB032 := by
    rw [← List.length_append, hfull]
    exact hcj.hole
  have hsolve : submittedSolve meets channel (sender.notifyInstance job clean) sub =
      if meets s.hash (strtoulHex (sender.notifyInstance job clean).nbit) then
        some
          { t := cj.t
            coinbase := cj.dcbPrefix ++ (sender.extranoncePrefix ++ sub.extranonce) ++ cj.dcbSuffix
            extranonce := sender.extranoncePrefix ++ sub.extranonce
            prevHash := (s.swap.drop 4).take 32
            version := sub.version
            ntime := sub.ntime
            nonce := sub.nonce
            nbits := strtoulHex (sender.notifyInstance job clean).nbit }
      else none := by
    rw [submittedSolve, hni, Option.bind_some, if_pos hle, customSolve, hni, Option.bind_some, hdrop,
      hheader, Option.bind_some, hsub.hash]
  refine
    { header := by rw [hdrop, hheader]
      missed := ?_
      solved := ?_ }
  · intro hmissed
    rw [hsolve, hmissed]
    rfl
  · intro hmet
    rw [hsolve, hmet]
    have hprev : (s.swap.drop 4).take 32 = job.prevHash.bytes := by
      rw [hsub.header, wireHeader]
      simp only [List.append_assoc]
      rw [List.drop_left' (length_leBytes 4 _), List.take_left' job.prevHash.length_bytes]
    have hnbits : strtoulHex (sender.notifyInstance job clean).nbit = job.nbits :=
      strtoulHex_fmt08x job.nbits
    have hswap : s.swap = wireHeader sub.version job.prevHash
        (sv2MerkleRootFromPath (genHash s.coinbase) job.merklePath) sub.ntime
        (strtoulHex (sender.notifyInstance job clean).nbit) sub.nonce := by
      rw [hnbits]
      exact hsub.header
    obtain ⟨hdcb, hlcb⟩ := hcj.txid _ hfull
    refine ⟨_, _, rfl, hni, rfl, ⟨job.prevHash, _, hprev, hswap⟩, rfl, rfl, ?_, ?_⟩
    · rw [hcoinbase]
      exact hdcb
    · rw [hcoinbase]
      exact hlcb

end Share

/-- Nothing is declared on a new channel. -/
theorem JobHandOver.inv_start {nonce2length proxyNotifyId : Nat}
    {ok : Sv2.OpenExtendedChannelSuccess} {opened : Sv2ProxyOpened}
    (hopen : sv2ProxyOpen nonce2length proxyNotifyId ok = some opened) :
    Inv opened.sp.channel ⟨opened.sp, none⟩ := by
  simp only [sv2ProxyOpen] at hopen
  split_ifs at hopen
  obtain rfl := Option.some.inj hopen
  refine
    { layout := rfl
      carries := ⟨?_, ?_⟩
      built := fun _ hnone => by cases hnone
      notifies := fun _ hnone => by cases hnone }
  · intro slot job hslot
    cases hslot
  · intro stage hstage
    cases hstage

/-- Every share on a declared job that was notified goes up, and is solved. -/
def SharesSolved (meets : Hash256 → UInt32 → Bool) (nonce2length : Nat) (opened : Sv2ProxyOpened)
    (events : List JobHandOver.Event) : Prop :=
  ∀ ni ∈ (run JobHandOver.step ⟨opened.sp, none⟩ events).sp.notifies, ni.custom.isSome = true →
    ∀ (ck : Ckpool) (wb : Workbase) (enonce1_64 : UInt64) (txnbin nonce2 ntime nonce : Bytes)
      (mask seq : UInt32) (s : Submission),
      let proxy := updateSubscribe nonce2length opened.enonce1 opened.nonce2len
      ck.btcsolo = false → updateNotify proxy ni = some wb →
      parseSubmit ck ⟨(fillEnonce1data proxy enonce1_64).enonce1bin, txnbin⟩ wb nonce2
        (strtoulHex ntime) mask nonce = some s →
      ∃ sub pbuf,
        sv2ProxySubmitShare opened.sp.channel ni (parseSubmitDoc wb
          (fillEnonce1data proxy enonce1_64).enonce1var ni.id64 nonce2 ntime nonce mask) seq =
            some (sub, pbuf) ∧
        Solves meets opened.sp.channel ni s sub

/-- **A block on a declared job is not lost.**  In every run of a channel in which the prefix stays
the one that a job was built for until it is staged, every share on a notified declared job that
goes up is solved: the header is the hashed one, and one solution goes out exactly when its hash
meets the difficulty, with a coinbase of the same id. -/
theorem declared_shares_solved (meets : Hash256 → UInt32 → Bool)
    (nonce2length proxyNotifyId : Nat) (ok : Sv2.OpenExtendedChannelSuccess)
    (opened : Sv2ProxyOpened) (hopen : sv2ProxyOpen nonce2length proxyNotifyId ok = some opened)
    (events : List JobHandOver.Event)
    (halong : Along JobHandOver.step JobHandOver.Unmoved ⟨opened.sp, none⟩ events) :
    SharesSolved meets nonce2length opened events := by
  intro ni hni hcustom ck wb enonce1_64 txnbin nonce2 ntime nonce mask seq s proxy hsolo hwb hs
  have hinv : JobHandOver.Inv opened.sp.channel (run JobHandOver.step ⟨opened.sp, none⟩ events) :=
    run_invariant (I := JobHandOver.Inv opened.sp.channel)
      (fun _ e hunmoved h => JobHandOver.inv_step e hunmoved h) halong (JobHandOver.inv_start hopen)
  obtain ⟨sender, job, clean, hchannel, hjob, rfl⟩ := hinv.notifies ni hni
  simp only [sv2ProxyOpen] at hopen
  split_ifs at hopen with hrange
  rw [not_or, not_lt, not_lt] at hrange
  obtain ⟨hmin, hmax⟩ := hrange
  obtain rfl := Option.some.inj hopen
  obtain ⟨hsum, hen1, hen2, hpos⟩ := sv2ProxySplit_spec nonce2length hmin hmax
  have hpad : sender.channel.padLen = (sv2ProxySplit nonce2length ok.extranonceSize.toNat).pad := by
    rw [hchannel]
  have hsize : sender.channel.extranonceSize = ok.extranonceSize.toNat := by rw [hchannel]
  obtain ⟨sub, pbuf, var, hsubmit, -, hsub⟩ := submitShare_spec
    ⟨hpad, hsum.trans hsize.symm, hsize.trans_le hmax, hen1, ⟨hpos, hen2⟩,
      updateSubscribe_split nonce2length hmin hmax⟩ hsolo hwb
    enonce1_64 txnbin hs (sender.notifyInstance job clean).id64 seq
  rw [hchannel] at hsubmit hsub
  have hsome : job.custom.isSome = true := by
    rw [← Option.isSome_map (f := fun declared => (⟨declared, sender.extranoncePrefix⟩ : Sv2Custom))]
    exact hcustom
  exact ⟨sub, pbuf, hsubmit, hsub.solves hchannel hjob hsome⟩

/-! ### A block -/

/-- `diff_from_target` -/
def diffFromTarget (hash : Hash256) : ℚ := truediffone / max 1 (leNat hash.bytes : ℚ)

/-- `sv2_diff_from_nbits` -/
def sv2DiffFromNbits (nbits : UInt32) : ℚ :=
  let shift := min (max (nbits.toNat / 2 ^ 24) 3) 32
  truediffone / max 1 ((nbits.toNat % 2 ^ 24 * 256 ^ (shift - 3) : Nat) : ℚ)

/-- The comparison of `sv2_proxy_custom_solve`, without the rounding of doubles. -/
def meetsNetwork (hash : Hash256) (nbits : UInt32) : Bool :=
  decide (999 / 1000 * max 1 (sv2DiffFromNbits nbits) ≤ diffFromTarget hash)

/-- The template of the first block of all, whose scriptSig ends where the hole begins. -/
def firstBlockTemplate : JdcCoinbaseTemplate where
  id := 1
  version := 1
  prevHash := .zero
  ntime := 0x495fab29
  nbits := 0x1d00ffff
  merklePath := []
  cbVersion := 1
  cbSequence := 0xffffffff
  cbLocktime := 0
  reward := 5000000000
  scriptSigPrefix :=
    [0x04, 0xff, 0xff, 0x00, 0x1d, 0x01, 0x04, 0x45, 0x54, 0x68, 0x65, 0x20, 0x54, 0x69, 0x6d, 0x65,
      0x73, 0x20, 0x30, 0x33, 0x2f, 0x4a, 0x61, 0x6e, 0x2f, 0x32, 0x30, 0x30, 0x39, 0x20, 0x43,
      0x68, 0x61, 0x6e, 0x63, 0x65, 0x6c, 0x6c, 0x6f, 0x72, 0x20, 0x6f, 0x6e, 0x20, 0x62, 0x72,
      0x69, 0x6e, 0x6b, 0x20, 0x6f, 0x66, 0x20, 0x73, 0x65, 0x63, 0x6f, 0x6e, 0x64, 0x20, 0x62,
      0x61, 0x69, 0x6c, 0x6f, 0x75, 0x74, 0x20, 0x66, 0x6f, 0x72, 0x20]
  commitment := none

/-- Its output. -/
def firstBlockPayouts : Bytes :=
  [1, 0, 0, 0, 0, 0, 0, 0, 0, 0x43, 0x41, 0x04, 0x67, 0x8a, 0xfd, 0xb0, 0xfe, 0x55, 0x48, 0x27,
    0x19, 0x67, 0xf1, 0xa6, 0x71, 0x30, 0xb7, 0x10, 0x5c, 0xd6, 0xa8, 0x28, 0xe0, 0x39, 0x09,
    0xa6, 0x79, 0x62, 0xe0, 0xea, 0x1f, 0x61, 0xde, 0xb6, 0x49, 0xf6, 0xbc, 0x3f, 0x4c, 0xef,
    0x38, 0xc4, 0xf3, 0x55, 0x04, 0xe5, 0x1e, 0xc1, 0x12, 0xde, 0x5c, 0x38, 0x4d, 0xf7, 0xba,
    0x0b, 0x8d, 0x57, 0x8a, 0x4c, 0x70, 0x2b, 0x6b, 0xf1, 0x1d, 0x5f, 0xac]

/-- A channel that leaves four bytes of the scriptSig to the miner. -/
def firstBlockGrant : Sv2.OpenExtendedChannelSuccess where
  requestId := 1
  channelId := 3
  target := .zero
  extranonceSize := 4
  extranoncePrefix := [0x62]
  groupChannelId := 0

def firstBlockUpstream : Sv2ProxyOpened := (sv2ProxyOpen 0 7 firstBlockGrant).get (by decide)

def firstBlockSubscription : ProxySubscription :=
  updateSubscribe 0 firstBlockUpstream.enonce1 firstBlockUpstream.nonce2len

/-- The job is built, staged, and accepted. -/
def firstBlockEvents : List JobHandOver.Event :=
  [.build firstBlockTemplate ⟨1, 4, true⟩ firstBlockPayouts [1] true, .stage,
    .frame (.customSuccess 1 7)]

/-- Another prefix of the same length comes before it is staged. -/
def movedPrefixEvents : List JobHandOver.Event :=
  [.build firstBlockTemplate ⟨1, 4, true⟩ firstBlockPayouts [1] true,
    .frame (.setExtranoncePrefix [0x42]), .stage, .frame (.customSuccess 1 7)]

/-- The share that was the block. -/
def firstBlockSubmission (wb : Workbase) : Option Submission :=
  parseSubmit { longCk with btcsolo := false }
    ⟨(fillEnonce1data firstBlockSubscription 0x61).enonce1bin, []⟩ wb (bin2hex [0x6e, 0x6b, 0x73])
    (strtoulHex (fmt08x 0x495fab29)) 0 (fmt08x 0x7c2bac1d)

/-- What goes up for it. -/
def firstBlockSent (ni : NotifyInstance) (wb : Workbase) : Option (SubmitSharesExtended × Bytes) :=
  sv2ProxySubmitShare firstBlockUpstream.sp.channel ni
    (parseSubmitDoc wb (fillEnonce1data firstBlockSubscription 0x61).enonce1var ni.id64
      (bin2hex [0x6e, 0x6b, 0x73]) (fmt08x 0x495fab29) (fmt08x 0x7c2bac1d) 0) 0

/-- The block is found on a notified declared job, and its solution satisfies `p`. -/
def firstBlockFound (events : List JobHandOver.Event) (p : Submission → Sv2JdcSolution → Bool) :
    Bool :=
  (run JobHandOver.step ⟨firstBlockUpstream.sp, none⟩ events).sp.notifies.any fun ni =>
    ni.custom.isSome && (updateNotify firstBlockSubscription ni).any fun wb =>
      (firstBlockSubmission wb).any fun s => meetsNetwork s.hash (strtoulHex ni.nbit) &&
        (firstBlockSent ni wb).any fun sent =>
          (submittedSolve meetsNetwork firstBlockUpstream.sp.channel ni sent.1).any (p s)

theorem firstBlockFound_iff {events : List JobHandOver.Event}
    {p : Submission → Sv2JdcSolution → Bool} :
    firstBlockFound events p = true ↔
      ∃ ni ∈ (run JobHandOver.step ⟨firstBlockUpstream.sp, none⟩ events).sp.notifies,
        ni.custom.isSome = true ∧ ∃ wb, updateNotify firstBlockSubscription ni = some wb ∧
          ∃ s, firstBlockSubmission wb = some s ∧ meetsNetwork s.hash (strtoulHex ni.nbit) = true ∧
            ∃ sent, firstBlockSent ni wb = some sent ∧
              ∃ sol, submittedSolve meetsNetwork firstBlockUpstream.sp.channel ni sent.1 = some sol ∧
                p s sol = true := by
  simp only [firstBlockFound, List.any_eq_true, Bool.and_eq_true, Option.any_eq_true]

example : firstBlockFound [] (fun _ _ => true) = false := by decide +kernel

/-- The block goes out. -/
theorem declared_shares_solved_example :
    firstBlockFound firstBlockEvents (fun s sol =>
      decide (sv2BitcoinTxid sol.coinbase = some (genHash s.coinbase))) = true := by
  have hfound : firstBlockFound firstBlockEvents (fun _ _ => true) = true := by decide +kernel
  obtain ⟨ni, hni, hcustom, wb, hwb, s, hs, hmet, sent, hsent, sol, hsol, -⟩ :=
    firstBlockFound_iff.mp hfound
  obtain ⟨sub, pbuf, hsubmit, hsolves⟩ := declared_shares_solved meetsNetwork 0 7 firstBlockGrant
    firstBlockUpstream (Option.some_get _).symm firstBlockEvents (by decide) ni hni hcustom
    { longCk with btcsolo := false } wb 0x61 [] (bin2hex [0x6e, 0x6b, 0x73]) (fmt08x 0x495fab29)
    (fmt08x 0x7c2bac1d) 0 0 s rfl hwb hs
  obtain rfl : (sub, pbuf) = sent := Option.some.inj (hsubmit.symm.trans hsent)
  obtain ⟨sol', custom, hsol', -, -, -, -, -, htxid, -⟩ := hsolves.solved hmet
  obtain rfl : sol' = sol := Option.some.inj (hsol'.symm.trans hsol)
  exact firstBlockFound_iff.mpr
    ⟨ni, hni, hcustom, wb, hwb, s, hs, hmet, (sub, pbuf), hsent, sol', hsol, by simpa using htxid⟩

/-- With the other prefix the header is still that of the block, but the coinbase that goes out is
another one. -/
theorem moved_prefix_loses_block :
    ¬ ∀ events, SharesSolved meetsNetwork 0 firstBlockUpstream events := by
  intro hall
  have hfound : firstBlockFound movedPrefixEvents (fun s sol =>
      sv2BitcoinTxid sol.coinbase != some (genHash s.coinbase)) = true := by decide +kernel
  obtain ⟨ni, hni, hcustom, wb, hwb, s, hs, hmet, sent, hsent, sol, hsol, hne⟩ :=
    firstBlockFound_iff.mp hfound
  obtain ⟨sub, pbuf, hsubmit, hsolves⟩ := hall movedPrefixEvents ni hni hcustom
    { longCk with btcsolo := false } wb 0x61 [] (bin2hex [0x6e, 0x6b, 0x73]) (fmt08x 0x495fab29)
    (fmt08x 0x7c2bac1d) 0 0 s rfl hwb hs
  obtain rfl : (sub, pbuf) = sent := Option.some.inj (hsubmit.symm.trans hsent)
  obtain ⟨sol', custom, hsol', -, -, -, -, -, htxid, -⟩ := hsolves.solved hmet
  obtain rfl : sol' = sol := Option.some.inj (hsol'.symm.trans hsol)
  simp [htxid] at hne

end CashStratum
