/-
CashStratum/CoinbaseProof.lean

The coinbase proof of the API (`/coinbase`), from the jobs of a solo pool.

The API cuts the job of one user into a template and answers for every other one by putting its
script in.  What it answers is the job that the pool hands to that user, byte for byte
(`template_is_every_job`), whatever the flags, the signature and the fee script are: no byte of
them is looked at.  And what it reads out of a coinbase of the pool are its height and its outputs
with their values and addresses (`proof_reads_coinbase`).
-/
import CashStratum.ApiNames
import CashStratum.Coinbase
import CashStratum.CoinbaseTemplate
import CashStratum.GoCashaddr
import CashStratum.TxnAddress

namespace CashStratum

/-! ### Reading a coinbase -/

/-- `hex.DecodeString`; what it says of a bad string is left out. -/
def hexDecodeString (s : Bytes) : Option Bytes := hex2bin s (s.length / 2)

/-- `coinbaseScriptSig`: the scriptSig, the offset past the input, and whether all of it is
there. -/
def readScriptSig (data : Bytes) : Except GoFail (Bytes × Int × Bool) :=
  if data.length < 4 then .ok ([], 0, false)
  else do
    match ← readVarint data 4 with
    | none => return ([], 0, false)
    | some (inputCount, offset) =>
      let offset' := goInt (offset + 36)
      if inputCount = 0 ∨ offset' > data.length then return ([], 0, false)
      else
        match ← readVarint data offset' with
        | none => return ([], 0, false)
        | some (scriptLen, offset) =>
          let stop := goInt (offset + goInt scriptLen)
          if scriptLen > data.length ∨ stop < offset ∨ stop > data.length then
            return (← goSlice data offset data.length, 0, false)
          else
            let script ← goSlice data offset stop
            let next := goInt (stop + 4)
            if next > data.length then return (script, 0, false)
            else return (script, next, true)

/-- `extractBlockHeight` -/
def extractBlockHeight (hexStr : Bytes) : Except GoFail (Option Int) :=
  match hexDecodeString hexStr with
  | none => .ok none
  | some data => do
      let (script, _, _) ← readScriptSig data
      if script.length = 0 then return none
      else
        let n := (← goIndex script 0).toNat
        if n < 1 ∨ n > 4 ∨ script.length < 1 + n then return none
        else
          let height ← goLe script 1 n
          if height = 0 then return none else return some height

/-- `CoinbaseOutput`; the value in coins is a float. -/
structure CoinbaseOutput where
  value : Int
  address : Bytes
  type : String
deriving DecidableEq

/-- The digits of the loop of `encodeLegacyAddress`, in front of those that are there. -/
def base58Loop (num : Nat) (out : Bytes) : Bytes :=
  if num = 0 then out else base58Loop (num / 58) (b58Char (UInt8.ofNat (num % 58)) :: out)

/-- `encodeLegacyAddress` -/
def encodeLegacyAddress (pubkeyHash : Bytes) : Bytes :=
  if pubkeyHash.length ≠ 20 then []
  else
    let full := checkPayload 0 pubkeyHash
    (full.takeWhile (· == 0)).map (fun _ => 49) ++ base58Loop (numeral 256 full) []

/-- The output of a value and a script. -/
def outputOf (value : Int) (script : Bytes) : CoinbaseOutput :=
  if 0 < script.length ∧ script.getD 0 0 = 0x6a then { value, address := [], type := "op_return" }
  else if script.length = 25 ∧ script.take 3 = [0x76, 0xa9, 0x14] ∧
      script.drop 23 = [0x88, 0xac] then
    { value, address := encodeLegacyAddress ((script.drop 3).take 20), type := "pool_fee" }
  else { value, address := [], type := "pool_fee" }

/-- The loop of `parseCoinbaseOutputs`. -/
def readOutputs (data : Bytes) : Nat → Int → Except GoFail (List CoinbaseOutput)
  | 0, _ => .ok []
  | n + 1, offset =>
    let offset' := goInt (offset + 8)
    if offset' > data.length then .ok []
    else do
      let value ← goLe data offset 8
      match ← readVarint data offset' with
      | none => return []
      | some (scriptLen, next) =>
        let stop := goInt (next + goInt scriptLen)
        let stop := if stop < next ∨ stop > data.length then (data.length : Int) else stop
        let script ← goSlice data next stop
        let rest ← readOutputs data n stop
        return outputOf (goInt value) script :: rest

/-- `best`: the first of the largest outputs that pay. -/
def bestOutput (outputs : List CoinbaseOutput) : Option Nat :=
  (List.range outputs.length).foldl
    (fun best i =>
      match outputs[i]? with
      | none => best
      | some out =>
        if out.type = "op_return" then best
        else
          match best.bind fun b => outputs[b]? with
          | none => some i
          | some other => if out.value > other.value then some i else best)
    none

/-- The largest output is the miner's. -/
def markMiner (outputs : List CoinbaseOutput) : List CoinbaseOutput :=
  match bestOutput outputs with
  | none => outputs
  | some best => outputs.modify best fun out => { out with type := "miner" }

/-- `parseCoinbaseOutputs`: the outputs, and the sum of their values. -/
def parseCoinbaseOutputs (hexStr : Bytes) : Except GoFail (List CoinbaseOutput × Int) :=
  match hexDecodeString hexStr with
  | none => .ok ([], 0)
  | some data => do
      let (_, offset, ok) ← readScriptSig data
      if ¬ok then return ([], 0)
      else
        match ← readVarint data offset with
        | none => return ([], 0)
        | some (outputCount, offset) =>
          if outputCount = 0 ∨ outputCount > data.length then return ([], 0)
          else
            let outputs ← readOutputs data outputCount offset
            return (markMiner outputs,
              outputs.foldl (fun total out => goInt (total + out.value)) 0)

/-! ### The template of a job -/

/-- `stratumJob` -/
structure StratumJob where
  coinb1 : Bytes
  coinb2 : Bytes
  extranonce1 : Bytes
  en2Size : Int
  networkBits : String

/-- `newCoinbaseTemplate`; what `hex` says of a bad string is left out of the errors. -/
def newCoinbaseTemplate (job : StratumJob) (network : Bytes) (fetchedAt : Int) :
    Except GoFail CoinbaseTemplate := do
  match hexDecodeString job.coinb1 with
  | none => throw (.error "coinb1")
  | some coinb1 =>
    match hexDecodeString job.coinb2 with
    | none => throw (.error "coinb2")
    | some coinb2 =>
      match hexDecodeString job.extranonce1 with
      | none => throw (.error "extranonce1")
      | some en1 =>
        if job.en2Size < 0 then throw (.error "negative extranonce2 size")
        else
          match ← extractBlockHeight job.coinb1 with
          | none => throw (.error "coinb1 carries no block height")
          | some height =>
            let (head, _, coinb3) ← splitCoinb2 coinb1 en1.length job.en2Size coinb2
            return { height, coinb1, en1Sample := en1, en2Size := job.en2Size.toNat
                     coinb2Head := head, coinb3, networkBits := job.networkBits, network
                     fetchedAt }

/-- The job that the pool hands to a probe: `coinb1` and the extranonces of the workbase, and the
`coinb2` of a user. -/
def probeJob (ck : Ckpool) (wb : Workbase) (coinb2 en1 : Bytes) (networkBits : String) :
    StratumJob where
  coinb1 := bin2hex wb.coinb1bin
  coinb2 := bin2hex coinb2
  extranonce1 := bin2hex en1
  en2Size := ck.nonce2length
  networkBits := networkBits

/-- `coinbaseHex` of a probe: `coinb1`, the extranonces with the second one zero, and `coinb2`. -/
def StratumJob.coinbaseHex (job : StratumJob) : Bytes :=
  job.coinb1 ++ job.extranonce1 ++ (List.replicate job.en2Size.toNat [48, 48]).flatten ++ job.coinb2

/-! ### Hex -/

theorem hexDecodeString_bin2hex (p : Bytes) : hexDecodeString (bin2hex p) = some p := by
  rw [hexDecodeString, length_bin2hex, Nat.mul_div_cancel_left _ (by decide), hex2bin_bin2hex]

theorem bin2hex_replicate_zero (n : Nat) :
    bin2hex (List.replicate n 0) = (List.replicate n [48, 48]).flatten := by
  induction n with
  | zero => rfl
  | succ n ih =>
    rw [List.replicate_succ, List.replicate_succ, bin2hex, ih]
    rfl

/-! ### The scriptSig -/

section ScriptSig

/-- A number below `0xfd` is its own byte. -/
theorem spells_one {n : Nat} (h : n < 0xfd) : SpellsCompactSize [UInt8.ofNat n] n := by
  have hwrite := spellsCompactSize_write (n := n) (by omega)
  rwa [sv2WriteCompactSize, if_pos h] at hwrite

variable {data front script rest : Bytes} {n : Nat}

/-- The reader up to the length of the scriptSig. -/
theorem readScriptSig_front (hdata : data = scriptsigHeaderBin ++ ([UInt8.ofNat n] ++ rest))
    (hlen : data.length ≤ 2 ^ 48) (hn : n < 0xfd) :
    data.drop 42 = rest ∧ readVarint data 4 = .ok (some (1, 5)) ∧
      readVarint data 41 = .ok (some (n, 42)) ∧ data.length = 42 + rest.length := by
  have hheader : scriptsigHeaderBin.length = 41 := by decide
  have hdrop : data.drop 41 = [UInt8.ofNat n] ++ rest := by
    rw [hdata, ← hheader, List.drop_left]
  have hlength : data.length = 42 + rest.length := by
    rw [hdata, List.length_append, hheader, List.length_append, List.length_singleton]
    omega
  have hone : data.drop 4 = [1] ++ (nullPrevout ++ ([UInt8.ofNat n] ++ rest)) := by
    rw [hdata]
    rfl
  refine ⟨drop_add_of_drop hdrop, ?_, ?_, hlength⟩
  · exact readVarint_spelled hlen (by omega) hone (spells_one (n := 1) (by decide))
  · exact readVarint_spelled hlen (by omega) hdrop (spells_one hn)

/-- A whole input. -/
theorem readScriptSig_whole (hlen : data.length ≤ 2 ^ 48) (hscript : script.length < 0xfd)
    (hdata : data = leBytes 4 1 ++ 1 :: (coinbaseInput script 0xffffffff ++ rest)) :
    readScriptSig data = .ok (script, ((46 + script.length : Nat) : Int), true) ∧
      data.drop (46 + script.length) = rest := by
  have hsplit : data = scriptsigHeaderBin ++ ([UInt8.ofNat script.length] ++
      (script ++ (leBytes 4 0xffffffff ++ rest))) := by
    rw [hdata, coinbaseInput, scriptsigHeaderBin]
    simp only [List.append_assoc, List.cons_append, List.nil_append]
    rfl
  obtain ⟨hdrop, hcount, hlength, hall⟩ := readScriptSig_front hsplit hlen hscript
  have hseq : data.drop (42 + script.length) = leBytes 4 0xffffffff ++ rest :=
    drop_add_of_drop hdrop
  rw [List.length_append, List.length_append, length_leBytes] at hall
  have hstop : goInt ((42 : Int) + goInt (script.length : Int)) =
      ((42 + script.length : Nat) : Int) := by
    rw [goInt_natCast (by omega)]
    exact goInt_add_natCast (m := 42) (by omega)
  have hnext : goInt (((42 + script.length : Nat) : Int) + 4) =
      ((46 + script.length : Nat) : Int) := by
    rw [goInt_of_range (by omega) (by omega)]
    omega
  have hslice : goSlice data 42 ((42 + script.length : Nat) : Int) = .ok script :=
    goSlice_eq (n := 42) (by omega) hdrop
  refine ⟨?_, ?_⟩
  · rw [readScriptSig, if_neg (by omega), hcount, ok_bind]
    dsimp only
    rw [goInt_of_range (x := 5 + 36) (by omega) (by omega), if_neg (by omega)]
    rw [show ((5 : Int) + 36) = 41 from rfl, hlength, ok_bind]
    dsimp only
    rw [hstop, if_neg (by omega), hslice, ok_bind, hnext, if_neg (by omega)]
    rfl
  · rw [show 46 + script.length = 42 + script.length + 4 by omega]
    exact drop_add_of_drop (a := leBytes 4 0xffffffff) hseq

/-- The front of an input whose scriptSig is cut. -/
theorem readScriptSig_cut (hlen : data.length ≤ 2 ^ 48) (hn : n < 0xfd) (hcut : script.length < n)
    (hdata : data = scriptsigHeaderBin ++ UInt8.ofNat n :: script) :
    readScriptSig data = .ok (script, 0, false) := by
  obtain ⟨hdrop, hcount, hlength, hall⟩ := readScriptSig_front hdata hlen hn
  have hstop : goInt ((42 : Int) + goInt (n : Int)) = ((42 + n : Nat) : Int) := by
    rw [goInt_natCast (by omega)]
    exact goInt_add_natCast (m := 42) (by omega)
  have hslice : goSlice data 42 ((42 + script.length : Nat) : Int) = .ok script := by
    apply goSlice_eq (n := 42) (q := []) (by omega)
    rw [hdrop, List.append_nil]
  rw [← hall] at hslice
  rw [readScriptSig, if_neg (by omega), hcount, ok_bind]
  dsimp only
  rw [goInt_of_range (x := 5 + 36) (by omega) (by omega), if_neg (by omega)]
  rw [show ((5 : Int) + 36) = 41 from rfl, hlength, ok_bind]
  dsimp only
  rw [hstop, if_pos (by omega), hslice]
  rfl

/-- The height that a scriptSig begins with is read. -/
theorem extractBlockHeight_eq {hexStr : Bytes} {height : Nat} {next : Int} {ok : Bool}
    (hdecode : hexDecodeString hexStr = some data)
    (hread : readScriptSig data = .ok (serNumber height ++ rest, next, ok)) (hpos : 0 < height)
    (hmax : height < 2 ^ 31) : extractBlockHeight hexStr = .ok (some (height : Int)) := by
  have hk := serNumberLen_pos height
  have hmod : ((height : Int) % 2 ^ 32).toNat = height := by omega
  have hpush : serNumber height ++ rest =
      UInt8.ofNat (serNumberLen height) :: (leBytes (serNumberLen height) height ++ rest) := by
    rw [serNumber_eq_pushData, hmod, pushData, length_leBytes]
    rfl
  have hbyte : (UInt8.ofNat (serNumberLen height)).toNat = serNumberLen height := by
    rw [UInt8.toNat_ofNat']
    omega
  have hnumber : leNat (leBytes (serNumberLen height) height) = height := by
    apply leNat_leBytes_of_lt
    unfold serNumberLen
    split_ifs <;> omega
  rw [extractBlockHeight, hdecode]
  dsimp only
  rw [hread, hpush, ok_bind]
  dsimp only
  set script := UInt8.ofNat (serNumberLen height) :: (leBytes (serNumberLen height) height ++ rest)
    with hscript
  have hlength : script.length = 1 + (serNumberLen height + rest.length) := by
    rw [hscript, List.length_cons, List.length_append, length_leBytes]
    omega
  have hindex : goIndex script 0 = .ok (UInt8.ofNat (serNumberLen height)) :=
    goIndex_eq (n := 0) List.drop_zero
  have hle : goLe script 1 (leBytes (serNumberLen height) height).length = .ok _ :=
    goLe_eq (n := 1) (q := rest) rfl
  rw [length_leBytes, hnumber] at hle
  rw [if_neg (by omega), hindex, ok_bind, hbyte, if_neg (by omega), hle, ok_bind,
    if_neg (by omega)]
  rfl

end ScriptSig

/-! ### The job of a user -/

section Job

variable {ck : Ckpool} {sd : Sdata} {t : GbtTemplate} {now : Ts} {d64 : Nat} {wb : Workbase}

/-- What the scriptSig of a job comes to, on both sides of the extranonces. -/
theorem length_scriptSig_parts {b : Gbtbase} (h17 : 17 ≤ t.height) (hmax : t.height < 2 ^ 31)
    (hb : genGbtbase t = some b) :
    (coinb1Script ck b now).length + ck.nonce1length + ck.nonce2length + (sigPush ck).length =
      scriptSigLen ck t now := by
  obtain ⟨-, -, -, -, hheight, hflags, -⟩ := genGbtbase_eq_some hb
  have hsig : (sigPush ck).length = if ck.btcsig.length = 0 then 0 else 1 + ck.btcsig.length := by
    rw [sigPush]
    split_ifs
    · rfl
    · rw [List.length_cons, Nat.add_comm]
  rw [coinb1Script, hheight, heightPush_eq ck h17 hmax, hflags, hsig, scriptSigLen]
  simp only [List.length_append, List.length_cons, List.length_nil, length_serNumber,
    length_flagsBin]
  omega

/-- The value of the first output. -/
def minerValue (ck : Ckpool) (b : Gbtbase) (d64 : Nat) : Nat :=
  if paysFee ck d64 then b.coinbasevalue.toNat - d64 else b.coinbasevalue.toNat

/-- How many outputs there are. -/
def outputCount (ck : Ckpool) (d64 : Nat) : Nat := if paysFee ck d64 then 2 else 1

/-- The `coinb2` of a script. -/
def soloCoinb2 (ck : Ckpool) (sd : Sdata) (b : Gbtbase) (d64 : Nat) (script : Bytes) : Bytes :=
  sigPush ck ++ ([0xff, 0xff, 0xff, 0xff] ++ ([UInt8.ofNat (outputCount ck d64)] ++
    leBytes 8 (minerValue ck b d64) ++ [UInt8.ofNat script.length] ++ script ++ coinb3 ck sd d64))

/-- **The two strings of a solo job.** -/
theorem soloJob_eq (hsolo : ck.btcsolo = true) (h17 : 17 ≤ t.height) (hmax : t.height < 2 ^ 31)
    (hwb : blockUpdate ck sd t now d64 = some wb) :
    ∃ b, genGbtbase t = some b ∧
      wb.coinb1bin =
        scriptsigHeaderBin ++ UInt8.ofNat (scriptSigLen ck t now) :: coinb1Script ck b now ∧
      ∀ user : TxnScript, userCoinb2 ck wb user.bin = some (soloCoinb2 ck sd b d64 user.bin) := by
  obtain ⟨b, txns, hb, -, rfl⟩ := blockUpdate_eq_some hwb
  refine ⟨b, hb, ?_, ?_⟩
  · have hcount : 1 + (coinb1Script ck b now).length + ck.nonce1length + ck.nonce2length +
        (sigPush ck).length - 1 = scriptSigLen ck t now := by
      rw [← length_scriptSig_parts h17 hmax hb]
      omega
    rw [← hcount]
    rfl
  · intro user
    have huser : user.bin.length ≠ 0 := user.len_pos.ne'
    rw [userCoinb2, if_pos hsolo, generateUserwb, if_neg huser, generateCoinbase]
    simp only [hsolo, if_true, soloCoinb2, minerValue, outputCount, List.append_assoc,
      List.cons_append, List.nil_append]
    congr 2
    split_ifs <;> rfl

/-- Behind the first output of a job come the others, and the lock time. -/
theorem tailEnd_coinb3 (ck : Ckpool) (sd : Sdata) (d64 : Nat) :
    tailEnd (coinb3 ck sd d64) (outputCount ck d64 - 1) 0 =
        .ok (((coinb3 ck sd d64).length - 4 : Nat) : Int) ∧ 4 ≤ (coinb3 ck sd d64).length ∧
      (coinb3 ck sd d64).length ≤ 61 := by
  have hpool := sd.pooltxnbin.len_le
  rw [coinb3, outputCount]
  split_ifs with hfee
  · set script := sd.pooltxnbin.bin
    set out := leBytes 8 d64 ++ UInt8.ofNat script.length :: script ++ List.replicate 4 0 with hout
    have hlength : out.length = 13 + script.length := by
      rw [hout]
      simp only [List.length_append, List.length_cons, List.length_replicate, length_leBytes]
      omega
    have hdrop : out.drop 8 = [UInt8.ofNat script.length] ++ (script ++ List.replicate 4 0) := by
      rw [hout, List.append_assoc]
      exact List.drop_left' (length_leBytes 8 d64)
    have hread : readVarint out 8 = .ok (some (script.length, 9)) :=
      readVarint_spelled (by omega) (by omega) hdrop (spells_one (by omega))
    refine ⟨?_, by omega, by omega⟩
    rw [tailEnd, goInt_of_range (x := 0 + 8) (by omega) (by omega), if_neg (by omega),
      show ((0 : Int) + 8) = 8 from rfl, hread, ok_bind]
    dsimp only
    have hstop : goInt ((9 : Int) + script.length) = ((out.length - 4 : Nat) : Int) := by
      rw [goInt_of_range (by omega) (by omega)]
      omega
    rw [goInt_natCast (n := script.length) (by omega), hstop, if_neg (by omega), tailEnd]
  · refine ⟨rfl, by decide, by decide⟩

theorem pushRest_sigPush (ck : Ckpool) : PushRest (sigPush ck) := by
  have hsig := ck.btcsig_len
  rw [sigPush]
  split_ifs
  · rintro push ⟨⟩
  · rintro push ⟨⟩
    rw [UInt8.toNat_ofNat', List.length_cons]
    omega

/-- A solo job has its parts. -/
theorem exists_soloParts (sd : Sdata) (d64 : Nat) {b : Gbtbase} (user : TxnScript)
    (hsum : (coinb1Script ck b now).length + ck.nonce1length + ck.nonce2length +
      (sigPush ck).length = scriptSigLen ck t now) :
    ∃ parts : JobParts
        (scriptsigHeaderBin ++ [UInt8.ofNat (scriptSigLen ck t now)] ++ coinb1Script ck b now)
        (soloCoinb2 ck sd b d64 user.bin) ck.nonce1length ck.nonce2length,
      parts.head = sigPush ck ++ [0xff, 0xff, 0xff, 0xff] ++ [UInt8.ofNat (outputCount ck d64)] ++
        leBytes 8 (minerValue ck b d64) ∧
      parts.outputs.script = user.bin ∧ parts.outputs.coinb3 = coinb3 ck sd d64 := by
  have hbound := scriptSigLen_bound ck t now
  have huser := user.len_le
  obtain ⟨htail, hfour, hle⟩ := tailEnd_coinb3 ck sd d64
  have hcount : 1 ≤ outputCount ck d64 ∧ outputCount ck d64 ≤ 3 := by
    rw [outputCount]
    split_ifs <;> decide
  let sig : SigParts :=
    { front := scriptsigHeaderBin
      spelled := [UInt8.ofNat (scriptSigLen ck t now)]
      scriptLen := scriptSigLen ck t now
      sigFront := coinb1Script ck b now
      sigRest := sigPush ck
      length_front := by decide
      spells := spells_one (by omega)
      push := pushRest_sigPush ck }
  let outputs : OutputParts :=
    { countSpelled := [UInt8.ofNat (outputCount ck d64)]
      count := outputCount ck d64
      value := leBytes 8 (minerValue ck b d64)
      script := user.bin
      coinb3 := coinb3 ck sd d64
      spells := spells_one (by omega)
      one_le_count := hcount.1
      count_le := hcount.2
      length_value := length_leBytes _ _
      script_ne_nil := List.ne_nil_of_length_pos user.len_pos
      length_script := by omega }
  refine ⟨⟨sig, outputs, ((coinb3 ck sd d64).length - 4 : Nat), rfl, rfl, ?_, htail, ?_⟩, rfl, rfl,
    rfl⟩
  · rw [SigParts.total, hsum]
    exact Nat.mod_eq_of_lt (by omega)
  · dsimp only [outputs]
    rw [goInt_of_range (by omega) (by omega)]
    omega

/-- **The job of any user becomes one template**, with the height of the work, and the template
with a script in it is the job of the user of that script. -/
theorem template_of_job (hsolo : ck.btcsolo = true) (h17 : 17 ≤ t.height) (hmax : t.height < 2 ^ 31)
    (hwb : blockUpdate ck sd t now d64 = some wb) (user : TxnScript) {en1 : Bytes}
    (hen1 : en1.length = ck.nonce1length) (networkBits : String) (network : Bytes)
    (fetchedAt : Int) :
    ∃ coinb2 tmpl, userCoinb2 ck wb user.bin = some coinb2 ∧
      newCoinbaseTemplate (probeJob ck wb coinb2 en1 networkBits) network fetchedAt = .ok tmpl ∧
      tmpl.height = t.height ∧ tmpl.network = network ∧ tmpl.networkBits = networkBits ∧
      tmpl.fetchedAt = fetchedAt ∧
      ∀ other : TxnScript, ∃ coinb2', userCoinb2 ck wb other.bin = some coinb2' ∧
        tmpl.assemble other.bin =
          wb.coinb1bin ++ en1 ++ List.replicate ck.nonce2length 0 ++ coinb2' := by
  obtain ⟨b, hb, hcoinb1, hcoinb2⟩ := soloJob_eq hsolo h17 hmax hwb
  have hsum : (coinb1Script ck b now).length + ck.nonce1length + ck.nonce2length +
      (sigPush ck).length = scriptSigLen ck t now := length_scriptSig_parts h17 hmax hb
  have hbound := scriptSigLen_bound ck t now
  have hheader : scriptsigHeaderBin.length = 41 := by decide
  have hheight : b.height = t.height := (genGbtbase_eq_some hb).2.2.2.2.1
  have hn1 := ck.nonce1_range.1
  have hlen1 : wb.coinb1bin.length ≤ 2 ^ 48 := by
    rw [hcoinb1, List.length_append, List.length_cons, hheader]
    omega
  -- the height stands at the front of the scriptSig
  have hscript : coinb1Script ck b now = serNumber t.height ++
      (UInt8.ofNat (flagsBin b.flags).length :: flagsBin b.flags ++ serNumber now.tvSec ++
        serNumber now.tvNsec ++ [UInt8.ofNat (ck.nonce1length + ck.nonce2length)]) := by
    rw [coinb1Script, hheight, heightPush_eq ck h17 hmax]
    simp only [List.append_assoc]
  have hcut := readScriptSig_cut hlen1 (by omega) (by omega) hcoinb1
  rw [hscript] at hcut
  have hread : extractBlockHeight (bin2hex wb.coinb1bin) = .ok (some (t.height : Int)) :=
    extractBlockHeight_eq (hexDecodeString_bin2hex _) hcut (by omega) hmax
  -- the walk finds the parts
  obtain ⟨parts, hhead, hbin, hcoinb3⟩ := exists_soloParts sd d64 user hsum
  have hsplit : splitCoinb2 wb.coinb1bin ck.nonce1length ck.nonce2length
      (soloCoinb2 ck sd b d64 user.bin) = .ok (parts.head, user.bin, coinb3 ck sd d64) := by
    have hparts : wb.coinb1bin =
        scriptsigHeaderBin ++ [UInt8.ofNat (scriptSigLen ck t now)] ++ coinb1Script ck b now := by
      rw [hcoinb1, List.append_assoc, List.singleton_append]
    rw [hparts] at hlen1 ⊢
    refine (splitCoinb2_eq_ok_iff hlen1 ?_).mpr ⟨parts, rfl, hbin.symm, hcoinb3.symm⟩
    have htail := (tailEnd_coinb3 ck sd d64).2.2
    have huser := user.len_le
    simp only [soloCoinb2, List.length_append, List.length_cons, List.length_nil, length_leBytes]
    omega
  let tmpl : CoinbaseTemplate :=
    { height := t.height, coinb1 := wb.coinb1bin, en1Sample := en1, en2Size := ck.nonce2length
      coinb2Head := parts.head, coinb3 := coinb3 ck sd d64, networkBits, network, fetchedAt }
  refine ⟨_, tmpl, hcoinb2 user, ?_, rfl, rfl, rfl, rfl, ?_⟩
  · rw [newCoinbaseTemplate, probeJob]
    dsimp only
    rw [hexDecodeString_bin2hex, hexDecodeString_bin2hex, hexDecodeString_bin2hex]
    dsimp only
    rw [if_neg (by omega), hread, ok_bind]
    dsimp only
    rw [hen1, hsplit, ok_bind]
    rfl
  · intro other
    refine ⟨_, hcoinb2 other, ?_⟩
    rw [CoinbaseTemplate.assemble, soloCoinb2]
    dsimp only [tmpl]
    rw [hhead]
    simp only [List.append_assoc]

end Job

/-! ### The script of a username -/

/-- The script that `fetchCoinbaseProof` puts into a template, if the username has one. -/
def spliceScript (cashaddrPrefix username : Bytes) : Option Bytes :=
  match Cashaddr.decode (canonicalAuthUser cashaddrPrefix username) with
  | .error _ => none
  | .ok (pre, typ, hash) =>
    if pre ≠ cashaddrPrefix then none else (Cashaddr.outputScript typ hash).toOption

section Script

variable {chain : Chain} {username hash : Bytes} {isP2sh : Bool}

/-- **The script of the API is the payout script of the pool**, for every spelling of an
address. -/
theorem spliceScript_eq (hhash : hash.length = 20)
    (hspell : Spells (strsep username).1 chain.cashaddrPrefix
      (encodePayload chain.cashaddrPrefix isP2sh 0 hash)) :
    spliceScript chain.cashaddrPrefix.chars username = some (hashScript isP2sh hash) ∧
      addressToTxn chain (strsep username).1 = some (hashScript isP2sh hash) := by
  set payload := encodePayload chain.cashaddrPrefix isP2sh 0 hash with hpayload
  have haddress : SpellsAddress chain (strsep username).1 payload :=
    ⟨isP2sh, 0, hash, by decide, hhash, rfl, hspell⟩
  refine ⟨?_, ?_⟩
  · have hform : Cashaddr.AddressForm chain.cashaddrPrefix payload
        (chain.cashaddrPrefix.chars ++ 58 :: payload) := Or.inl rfl
    obtain ⟨hascii, hplain⟩ := hform.plain
    obtain ⟨hlower, hsame⟩ := (Cashaddr.lower_iff hascii hplain).mpr rfl
    have hprefix : chain.cashaddrPrefix.chars ≠ [] := by cases chain <;> decide
    have hdecode : Cashaddr.decode (chain.cashaddrPrefix.chars ++ 58 :: payload) =
        .ok (chain.cashaddrPrefix.chars, Cashaddr.typeOf isP2sh, hash) := by
      refine (Cashaddr.decode_eq_ok_iff _ hprefix _ _ _).mpr
        ⟨Or.inl hlower, hhash, isP2sh, rfl, ?_⟩
      rw [hsame]
      exact hform
    rw [spliceScript, haddress.canonicalAuthUser, hdecode]
    dsimp only
    rw [if_neg (not_not.mpr rfl), Cashaddr.outputScript_eq isP2sh hhash]
    rfl
  · have hclass : classifyAddress (strsep username).1 chain.cashaddrPrefix.chars =
        some (cashaddrKind isP2sh, hash) :=
      (classifyAddress_eq_some_iff chain _ _ _).mpr
        (Or.inl ⟨hhash, isP2sh, rfl, 0, by decide, hspell⟩)
    rw [addressToTxn, hclass]
    cases isP2sh <;> rfl

theorem length_hashScript (hhash : hash.length = 20) :
    0 < (hashScript isP2sh hash).length ∧ (hashScript isP2sh hash).length ≤ 48 := by
  rw [hashScript, hash160ToP2pkhScript, hash160ToP2shScript]
  split_ifs <;> simp [hhash]

end Script

/-- **A template of any user's job answers for every address.**  For a solo pool, work of any
template whose height is pushed as a number, any fee and clock, and the job of any user, what the
API puts together for a username that spells an address of the network is the job that the pool
hands to that address, with the extranonce of the probe. -/
theorem template_is_every_job {ck : Ckpool} {sd : Sdata} {t : GbtTemplate} {now : Ts} {d64 : Nat}
    {wb : Workbase} (hsolo : ck.btcsolo = true) (h17 : 17 ≤ t.height) (hmax : t.height < 2 ^ 31)
    (hwb : blockUpdate ck sd t now d64 = some wb) (user : TxnScript) {en1 : Bytes}
    (hen1 : en1.length = ck.nonce1length) (networkBits : String) (fetchedAt : Int) {chain : Chain}
    {username hash : Bytes} {isP2sh : Bool} (hhash : hash.length = 20)
    (hspell : Spells (strsep username).1 chain.cashaddrPrefix
      (encodePayload chain.cashaddrPrefix isP2sh 0 hash)) :
    ∃ coinb2 tmpl script coinb2', userCoinb2 ck wb user.bin = some coinb2 ∧
      newCoinbaseTemplate (probeJob ck wb coinb2 en1 networkBits) chain.cashaddrPrefix.chars
        fetchedAt = .ok tmpl ∧
      tmpl.height = t.height ∧
      spliceScript chain.cashaddrPrefix.chars username = some script ∧
      addressToTxn chain (strsep username).1 = some script ∧
      userCoinb2 ck wb script = some coinb2' ∧
      bin2hex (tmpl.assemble script) =
        (probeJob ck wb coinb2' en1 networkBits).coinbaseHex := by
  obtain ⟨hsplice, htxn⟩ := spliceScript_eq hhash hspell
  obtain ⟨hpos, hle⟩ : 0 < (hashScript isP2sh hash).length ∧ (hashScript isP2sh hash).length ≤ 48 :=
    length_hashScript hhash
  obtain ⟨coinb2, tmpl, hcoinb2, htmpl, hheight, -, -, -, hevery⟩ :=
    template_of_job hsolo h17 hmax hwb user hen1 networkBits chain.cashaddrPrefix.chars fetchedAt
  obtain ⟨coinb2', hcoinb2', hbytes⟩ := hevery ⟨hashScript isP2sh hash, hpos, hle⟩
  refine ⟨coinb2, tmpl, _, coinb2', hcoinb2, htmpl, hheight, hsplice, htxn, hcoinb2', ?_⟩
  dsimp only at hbytes
  rw [hbytes, StratumJob.coinbaseHex, probeJob]
  simp only [bin2hex_append, bin2hex_replicate_zero, Int.toNat_natCast]

/-- The template of a job of the zero script answers for the address of the zero hash. -/
theorem template_answers_zeroAddress :
    ∃ wb coinb2 tmpl script coinb2',
      blockUpdate longCk exampleSd (emptyTemplate []) exampleNow 3125000 = some wb ∧
      userCoinb2 longCk wb zeroHashScript.bin = some coinb2 ∧
      newCoinbaseTemplate (probeJob longCk wb coinb2 (List.replicate 8 1) "1d00ffff")
        Chain.main.cashaddrPrefix.chars 0 = .ok tmpl ∧
      spliceScript Chain.main.cashaddrPrefix.chars (zeroHashAddress .main) = some script ∧
      userCoinb2 longCk wb script = some coinb2' ∧
      bin2hex (tmpl.assemble script) =
        (probeJob longCk wb coinb2' (List.replicate 8 1) "1d00ffff").coinbaseHex := by
  obtain ⟨wb, hwb⟩ := Option.isSome_iff_exists.mp (by decide +kernel :
    (blockUpdate longCk exampleSd (emptyTemplate []) exampleNow 3125000).isSome)
  have hname : (strsep (zeroHashAddress .main)).1 = zeroHashAddress .main := by decide +kernel
  have hspell : Spells (strsep (zeroHashAddress .main)).1 Chain.main.cashaddrPrefix
      (encodePayload Chain.main.cashaddrPrefix false 0 (List.replicate 20 0)) := Or.inl hname
  have hen1 : (List.replicate 8 (1 : UInt8)).length = longCk.nonce1length := rfl
  obtain ⟨coinb2, tmpl, script, coinb2', hcoinb2, htmpl, -, hscript, -, hcoinb2', hbytes⟩ :=
    template_is_every_job rfl (by decide) (by decide) hwb zeroHashScript hen1 "1d00ffff" 0
      List.length_replicate hspell
  exact ⟨wb, coinb2, tmpl, script, coinb2', hwb, hcoinb2, htmpl, hscript, hcoinb2', hbytes⟩

/-! ### The outputs of a coinbase -/

section Outputs

theorem base58Loop_eq {w num : Nat} (hnum : num < 58 ^ w) (out : Bytes) :
    base58Loop num out = (significant (digits 58 w num)).map b58Char ++ out := by
  induction w generalizing num out with
  | zero =>
    obtain rfl : num = 0 := by omega
    rw [base58Loop]
    rfl
  | succ w ih =>
    rw [pow_succ] at hnum
    have hrest : num / 58 < 58 ^ w := Nat.div_lt_of_lt_mul (by omega)
    rw [base58Loop]
    split_ifs with hzero
    · have hzeros : significant (List.replicate (w + 1) 0) = [] := by simp [significant]
      rw [hzero, digits_zero, hzeros]
      rfl
    · rw [ih hrest, digits]
      conv_rhs => rw [significant, List.dropWhile_append]
      split_ifs with hempty
      · -- the digit is the first one
        have hnone : significant (digits 58 w (num / 58)) = [] := List.isEmpty_iff.mp hempty
        have hvalue : numeral 58 (digits 58 w (num / 58)) = 0 := by
          rw [← numeral_significant, hnone]
          rfl
        rw [numeral_digits (by decide) (by decide), Nat.mod_eq_of_lt hrest] at hvalue
        have hdigit : UInt8.ofNat (num % 58) ≠ 0 := by
          intro h0
          have hbyte := congrArg UInt8.toNat h0
          rw [UInt8.toNat_ofNat'] at hbyte
          have : (0 : UInt8).toNat = 0 := rfl
          omega
        rw [hnone]
        simp [hdigit]
      · rw [List.map_append, List.append_assoc]
        rfl

/-- **The address of the API is the legacy one.** -/
theorem encodeLegacyAddress_eq {hash : Bytes} (hhash : hash.length = 20) :
    encodeLegacyAddress hash = base58Encode (checkPayload 0 hash) := by
  rw [encodeLegacyAddress, if_neg (not_not.mpr hhash)]
  dsimp only
  rw [base58Loop_eq (numeral_lt_pow58 _), List.append_nil, base58Encode, spellBase58,
    leadingZeros, List.map_const']

theorem outputOf_value (value : Int) (script : Bytes) : (outputOf value script).value = value := by
  unfold outputOf
  split_ifs <;> rfl

theorem outputOf_hashScript (value : Int) (isP2sh : Bool) {hash : Bytes}
    (hhash : hash.length = 20) :
    outputOf value (hashScript isP2sh hash) =
      { value, address := if isP2sh then [] else base58Encode (checkPayload 0 hash)
        type := "pool_fee" } := by
  cases isP2sh with
  | true =>
    have hlen : (hashScript true hash).length ≠ 25 := by
      simp [hashScript, hash160ToP2shScript, hhash]
    rw [outputOf, if_neg, if_neg]
    · rfl
    · exact fun h => hlen h.1
    · rintro ⟨-, h⟩
      cases h
  | false =>
    have hlen : (hashScript false hash).length = 25 := by
      simp [hashScript, hash160ToP2pkhScript, hhash]
    have hdrop : (hashScript false hash).drop 23 = [0x88, 0xac] := by
      rw [hashScript, if_neg Bool.false_ne_true, hash160ToP2pkhScript]
      exact List.drop_left' (by simp [hhash])
    have hmid : ((hashScript false hash).drop 3).take 20 = hash := by
      show (hash ++ [0x88, 0xac]).take 20 = hash
      exact List.take_left' hhash
    rw [outputOf, if_neg, if_pos ⟨hlen, rfl, hdrop⟩, hmid, encodeLegacyAddress_eq hhash]
    · rfl
    · rintro ⟨-, h⟩
      cases h

variable {data : Bytes} {n : Nat}

/-- **The walk** reads a list of outputs. -/
theorem readOutputs_eq (hlen : data.length ≤ 2 ^ 48) {outs : List (Nat × Bytes)} {rest : Bytes}
    (hn : n ≤ data.length)
    (hdrop : data.drop n = (outs.map fun o => txOut o.1 o.2).flatten ++ rest)
    (houts : ∀ o ∈ outs, o.1 < 2 ^ 64 ∧ o.2.length < 0xfd) :
    readOutputs data outs.length n = .ok (outs.map fun o => outputOf (goInt o.1) o.2) := by
  induction outs generalizing n with
  | nil => rfl
  | cons o outs ih =>
    obtain ⟨⟨hvalue, hscript⟩, hrest⟩ := List.forall_mem_cons.mp houts
    have hsplit : data.drop n = leBytes 8 o.1 ++ ([UInt8.ofNat o.2.length] ++ (o.2 ++
        ((outs.map fun o => txOut o.1 o.2).flatten ++ rest))) := by
      rw [hdrop, List.map_cons, List.flatten_cons, txOut]
      simp only [List.append_assoc, List.cons_append, List.nil_append]
    have hall := length_eq_of_drop hsplit hn
    simp only [List.length_append, List.length_cons, List.length_nil, length_leBytes] at hall
    have hat8 : data.drop (n + 8) = _ := drop_add_of_drop (a := leBytes 8 o.1) hsplit
    have hat9 : data.drop (n + 8 + 1) = _ := drop_add_of_drop hat8
    have hnext : data.drop (n + 8 + 1 + o.2.length) = _ := drop_add_of_drop hat9
    have hread : readVarint data ((n + 8 : Nat) : Int) =
        .ok (some (o.2.length, ((n + 8 + 1 : Nat) : Int))) :=
      readVarint_spelled hlen (by omega) hat8 (spells_one hscript)
    have hle := goLe_eq hsplit
    rw [length_leBytes, leNat_leBytes_of_lt (by omega)] at hle
    have hslice := goSlice_eq (by omega) hat9
    have hstop : goInt (((n + 8 + 1 : Nat) : Int) + goInt (o.2.length : Int)) =
        ((n + 8 + 1 + o.2.length : Nat) : Int) := by
      rw [goInt_natCast (by omega)]
      exact goInt_add_natCast (by omega)
    have hvalues : goInt ((n : Int) + 8) = ((n + 8 : Nat) : Int) :=
      goInt_add_natCast (n := 8) (by omega)
    rw [List.length_cons, readOutputs, hvalues]
    dsimp only
    rw [if_neg (by omega), hle, ok_bind, hread, ok_bind]
    dsimp only
    rw [hstop, if_neg (by omega), hslice, ok_bind, ih (by omega) hnext hrest, ok_bind]
    rfl

/-- **What is read of a transaction with a list of outputs.** -/
theorem parseCoinbaseOutputs_eq {hexStr script rest : Bytes} {outs : List (Nat × Bytes)}
    (hdecode : hexDecodeString hexStr = some data) (hlen : data.length ≤ 2 ^ 48)
    (hn : n ≤ data.length) (hread : readScriptSig data = .ok (script, (n : Int), true))
    (hdrop : data.drop n = txOuts outs ++ rest) (hpos : outs ≠ []) (hcount : outs.length < 0xfd)
    (houts : ∀ o ∈ outs, o.1 < 2 ^ 64 ∧ o.2.length < 0xfd) :
    parseCoinbaseOutputs hexStr =
      .ok (markMiner (outs.map fun o => outputOf (goInt o.1) o.2),
        (outs.map fun o => outputOf (goInt o.1) o.2).foldl
          (fun total out => goInt (total + out.value)) 0) := by
  have hsplit : data.drop n = [UInt8.ofNat outs.length] ++
      ((outs.map fun o => txOut o.1 o.2).flatten ++ rest) := by
    rw [hdrop, txOuts]
    rfl
  have hall := length_eq_of_drop hsplit hn
  have hmany : outs.length ≤ (outs.map fun o => txOut o.1 o.2).flatten.length := by
    clear hsplit hall hdrop hpos hcount houts
    induction outs with
    | nil => exact Nat.zero_le _
    | cons o outs ih =>
      rw [List.map_cons, List.flatten_cons, List.length_append, txOut, List.length_append,
        length_leBytes, List.length_cons]
      omega
  rw [List.length_append, List.length_append] at hall
  have hone : readVarint data (n : Int) = .ok (some (outs.length, ((n + 1 : Nat) : Int))) :=
    readVarint_spelled hlen hn hsplit (spells_one hcount)
  have hnext : data.drop (n + 1) = _ := drop_add_of_drop hsplit
  have hlist := List.length_pos_of_ne_nil hpos
  rw [parseCoinbaseOutputs, hdecode]
  dsimp only
  rw [hread, ok_bind]
  dsimp only
  rw [if_neg (not_not.mpr rfl), hone, ok_bind]
  dsimp only
  rw [if_neg (by omega), readOutputs_eq hlen (by omega) hnext houts, ok_bind]
  rfl

/-- The first of two outputs is the miner's when it is not the smaller one. -/
theorem markMiner_two {a b : CoinbaseOutput} (ha : a.type = "pool_fee") (hb : b.type = "pool_fee")
    (hle : b.value ≤ a.value) : markMiner [a, b] = [{ a with type := "miner" }, b] := by
  have hbest : bestOutput [a, b] = some 0 := by
    simp [bestOutput, List.range_succ, ha, hb, hle]
  rw [markMiner, hbest]
  rfl

theorem markMiner_one {a : CoinbaseOutput} (ha : a.type = "pool_fee") :
    markMiner [a] = [{ a with type := "miner" }] := by
  have hbest : bestOutput [a] = some 0 := by
    simp [bestOutput, List.range_succ, ha]
  rw [markMiner, hbest]
  rfl

/-- A script that pays an address. -/
def PaysAddress (script : TxnScript) : Prop :=
  ∃ (isP2sh : Bool) (hash : Bytes), hash.length = 20 ∧ script.bin = hashScript isP2sh hash

/-- What the proof says of an output: its value, its type, and of a key hash the address that the
pool itself writes for the script beside a reference that is no test address. -/
def Reports (out : CoinbaseOutput) (type : String) (o : Nat × Bytes) : Prop :=
  out.value = o.1 ∧ out.type = type ∧
    ∀ hash, hash.length = 20 → o.2 = hash160ToP2pkhScript hash → ∀ alen ref, 36 ≤ alen →
      refTest ref = false → txnToAddress alen o.2 ref = some out.address

theorem type_outputOf {script : TxnScript} (hpays : PaysAddress script) (value : Int) :
    (outputOf value script.bin).type = "pool_fee" := by
  obtain ⟨isP2sh, hash, hhash, hscript⟩ := hpays
  rw [hscript, outputOf_hashScript _ isP2sh hhash]

theorem reports_outputOf {script : TxnScript} (hpays : PaysAddress script) {value : Nat}
    {type : String} {out : CoinbaseOutput} (hvalue : out.value = value) (htype : out.type = type)
    (haddress : out.address = (outputOf value script.bin).address) :
    Reports out type (value, script.bin) := by
  obtain ⟨isP2sh, hash, hhash, hscript⟩ := hpays
  rw [hscript, outputOf_hashScript _ isP2sh hhash] at haddress
  refine ⟨hvalue, htype, ?_⟩
  intro hash' hhash' hp2pkh alen ref halen href
  have hwritten := txnToAddress_hashScript halen false hhash' ref
  rw [href] at hwritten
  dsimp only at hp2pkh ⊢
  rw [hscript] at hp2pkh
  rw [haddress, hscript]
  cases isP2sh with
  | true =>
    have hlen := congrArg List.length hp2pkh
    simp [hashScript, hash160ToP2pkhScript, hash160ToP2shScript, hhash, hhash'] at hlen
  | false =>
    have hsame : hash = hash' := by
      have htail : hash ++ [0x88, 0xac] = hash' ++ [0x88, 0xac] :=
        congrArg (List.drop 3) hp2pkh
      exact List.append_cancel_right htail
    subst hsame
    exact hwritten

end Outputs

/-- The total of two values is not wrapped. -/
theorem goInt_total {a b c : Nat} (hsum : a + b = c) (hc : c < 2 ^ 63) :
    goInt (goInt (0 + (a : Int)) + (b : Int)) = (c : Int) := by
  rw [zero_add, goInt_natCast (by omega), goInt_add_natCast (by omega), hsum]

/-- The outputs of the pool are short and few. -/
theorem coinbaseOuts_bounds (ck : Ckpool) (sd : Sdata) (user : TxnScript) {value d64 : Nat}
    (hvalue : value < 2 ^ 64) (hfee : d64 ≤ value) :
    coinbaseOuts ck sd user value d64 ≠ [] ∧ (coinbaseOuts ck sd user value d64).length < 0xfd ∧
      ∀ o ∈ coinbaseOuts ck sd user value d64, o.1 < 2 ^ 64 ∧ o.2.length < 0xfd := by
  have hpay := (payScript ck sd user).len_le
  have hpool := sd.pooltxnbin.len_le
  rw [coinbaseOuts]
  split_ifs with hpaysFee
  · refine ⟨List.cons_ne_nil _ _, Nat.lt_of_lt_of_le (Nat.lt_succ_self 2) (by decide), ?_⟩
    intro o ho
    rcases List.mem_pair.mp ho with rfl | rfl
    · exact ⟨by dsimp only; omega, by dsimp only; omega⟩
    · exact ⟨by dsimp only; omega, by dsimp only; omega⟩
  · refine ⟨List.cons_ne_nil _ _, Nat.lt_of_lt_of_le (Nat.lt_succ_self 1) (by decide), ?_⟩
    intro o ho
    obtain rfl := List.mem_singleton.mp ho
    exact ⟨hvalue, by dsimp only; omega⟩

/-- What is read of the outputs of the pool: the total is the value, and they are reported. -/
theorem markMiner_coinbaseOuts {ck : Ckpool} {sd : Sdata} {user : TxnScript} {value d64 : Nat}
    (hrange : value < 2 ^ 63) (hfee : 2 * d64 ≤ value)
    (hpays : PaysAddress (payScript ck sd user)) (hpool : PaysAddress sd.pooltxnbin) :
    ((coinbaseOuts ck sd user value d64).map fun o => outputOf (goInt o.1) o.2).foldl
        (fun total out => goInt (total + out.value)) 0 = (value : Int) ∧
      List.Forall₂ (fun out o => Reports out o.1 o.2)
        (markMiner ((coinbaseOuts ck sd user value d64).map fun o => outputOf (goInt o.1) o.2))
        (["miner", "pool_fee"].zip (coinbaseOuts ck sd user value d64)) := by
  rw [coinbaseOuts]
  split_ifs with hpaysFee
  · have hsplit : value - d64 + d64 = value := by omega
    have hsmaller : ((d64 : Nat) : Int) ≤ ((value - d64 : Nat) : Int) := by omega
    rw [List.map_cons, List.map_cons, List.map_nil, List.foldl_cons, List.foldl_cons,
      List.foldl_nil]
    dsimp only
    rw [outputOf_value, outputOf_value, goInt_natCast (n := value - d64) (by omega),
      goInt_natCast (n := d64) (by omega),
      goInt_total hsplit hrange, markMiner_two (type_outputOf hpays _) (type_outputOf hpool _)
        (by rw [outputOf_value, outputOf_value]; exact hsmaller)]
    refine ⟨rfl, List.Forall₂.cons ?_ (List.Forall₂.cons ?_ List.Forall₂.nil)⟩
    · exact reports_outputOf hpays (outputOf_value _ _) rfl rfl
    · exact reports_outputOf hpool (outputOf_value _ _) (type_outputOf hpool _) rfl
  · rw [List.map_cons, List.map_nil, List.foldl_cons, List.foldl_nil]
    dsimp only
    rw [outputOf_value, goInt_natCast (n := value) hrange, zero_add, goInt_natCast hrange,
      markMiner_one (type_outputOf hpays _)]
    refine ⟨rfl, List.Forall₂.cons ?_ List.Forall₂.nil⟩
    exact reports_outputOf hpays (outputOf_value _ _) rfl rfl

/-- **What is read of the bytes of a coinbase** that starts with a height. -/
theorem proof_reads_bytes {data script pushes : Bytes} {height : Nat}
    {outs : List (Nat × Bytes)} (hpos : 0 < height) (hmax : height < 2 ^ 31)
    (hsig : script = serNumber height ++ pushes) (hblob : (txOuts outs).length ≤ 115)
    (hbytes : data = leBytes 4 1 ++ 1 :: (coinbaseInput script 0xffffffff ++
      (txOuts outs ++ leBytes 4 0)))
    (hscript : script.length < 0xfd)
    (houts : outs ≠ [] ∧ outs.length < 0xfd ∧ ∀ o ∈ outs, o.1 < 2 ^ 64 ∧ o.2.length < 0xfd) :
    extractBlockHeight (bin2hex data) = .ok (some (height : Int)) ∧
      parseCoinbaseOutputs (bin2hex data) =
        .ok (markMiner (outs.map fun o => outputOf (goInt o.1) o.2),
          (outs.map fun o => outputOf (goInt o.1) o.2).foldl
            (fun total out => goInt (total + out.value)) 0) := by
  obtain ⟨hne, hcount, hall⟩ := houts
  have hsize : data.length = 50 + script.length + (txOuts outs).length := by
    rw [hbytes, coinbaseInput]
    simp only [List.length_append, List.length_cons, List.length_nil, length_leBytes,
      length_nullPrevout]
    omega
  have hlength : data.length ≤ 2 ^ 48 := by omega
  have hinside : 46 + script.length ≤ data.length := by omega
  have hdecode : hexDecodeString (bin2hex data) = some data := hexDecodeString_bin2hex data
  obtain ⟨hread, hrest⟩ := readScriptSig_whole hlength hscript hbytes
  constructor
  · rw [hsig] at hread
    exact extractBlockHeight_eq hdecode hread hpos hmax
  · exact parseCoinbaseOutputs_eq hdecode hlength hinside hread hrest hne hcount hall

/-- **The proof reads what the pool pays.**  Of the coinbase of shared or solo work that pays
addresses, at a height that is pushed as a number, with any extranonces and a fee of at most a
half, the API reads the height of the work, the value of the template as the total, and the outputs
of the pool in their order: the first one is the miner's, a second one the pool's. -/
theorem proof_reads_coinbase {ck : Ckpool} {sd : Sdata} {user : TxnScript} {t : GbtTemplate}
    {now : Ts} {d64 : Nat} {wb : Workbase} {coinb2 en1 en2 : Bytes} {value : UInt64}
    (h17 : 17 ≤ t.height) (hmax : t.height < 2 ^ 31)
    (hwb : blockUpdate ck sd t now d64 = some wb) (hvalue : t.coinbasevalue = some value)
    (hcoinb2 : userCoinb2 ck wb user.bin = some coinb2)
    (hlen : (en1 ++ en2).length = ck.nonce1length + ck.nonce2length)
    (hrange : value.toNat < 2 ^ 63) (hfee : 2 * d64 ≤ value.toNat)
    (hpays : PaysAddress (payScript ck sd user)) (hpool : PaysAddress sd.pooltxnbin) :
    let tx := bin2hex (wb.coinb1bin ++ en1 ++ en2 ++ coinb2)
    extractBlockHeight tx = .ok (some (t.height : Int)) ∧
      ∃ outputs, parseCoinbaseOutputs tx = .ok (outputs, (value.toNat : Int)) ∧
        List.Forall₂ (fun out o => Reports out o.1 o.2) outputs
          (["miner", "pool_fee"].zip (coinbaseOuts ck sd user value.toNat d64)) := by
  intro tx
  have hbytes := assembled_eq h17 hmax hwb hvalue hcoinb2 hlen
  have hscriptLen := length_coinbaseScriptSig ck t now hlen
  have hbound := scriptSigLen_bound ck t now
  have hblob := (coinbaseOuts_blob ck sd user value.toNat d64).2.2
  obtain ⟨hheight, hparse⟩ := proof_reads_bytes (by omega) hmax rfl hblob hbytes
    (by omega : (coinbaseScriptSig ck t now (en1 ++ en2)).length < 0xfd)
    (coinbaseOuts_bounds ck sd user (Nat.lt_trans hrange (by decide)) (by omega))
  obtain ⟨htotal, hreports⟩ := markMiner_coinbaseOuts hrange hfee hpays hpool
  rw [htotal] at hparse
  exact ⟨hheight, _, hparse, hreports⟩

/-- Of the coinbase of the zero script two outputs of 25 bytes are read. -/
theorem proof_reads_zeroScript :
    ∃ wb coinb2 outputs,
      blockUpdate longCk exampleSd (emptyTemplate []) exampleNow 3125000 = some wb ∧
      userCoinb2 longCk wb zeroHashScript.bin = some coinb2 ∧
      parseCoinbaseOutputs (bin2hex (wb.coinb1bin ++ List.replicate 8 1 ++ List.replicate 8 2 ++
        coinb2)) = .ok (outputs, 312500000) ∧
      List.Forall₂ (fun out o => Reports out o.1 o.2) outputs
        [("miner", 309375000, zeroHashScript.bin), ("pool_fee", 3125000, zeroHashScript.bin)] := by
  obtain ⟨wb, hwb⟩ := Option.isSome_iff_exists.mp (by decide +kernel :
    (blockUpdate longCk exampleSd (emptyTemplate []) exampleNow 3125000).isSome)
  obtain ⟨coinb2, hcoinb2⟩ : ∃ coinb2, userCoinb2 longCk wb zeroHashScript.bin = some coinb2 :=
    ⟨_, rfl⟩
  have hpays : PaysAddress zeroHashScript := ⟨false, List.replicate 20 0, rfl, rfl⟩
  have hlen : (List.replicate 8 (1 : UInt8) ++ List.replicate 8 2).length =
      longCk.nonce1length + longCk.nonce2length := rfl
  have hvalue : (emptyTemplate []).coinbasevalue = some 312500000 := rfl
  obtain ⟨-, outputs, hparse, hreports⟩ := proof_reads_coinbase (by decide) (by decide) hwb hvalue
    hcoinb2 hlen (by decide) (by decide) hpays hpays
  exact ⟨wb, coinb2, outputs, hwb, hcoinb2, hparse, hreports⟩

end CashStratum
