import ModbusRtu.Port.BusConversation

/-!
# Back into step with the bus

Noise on the bus may be anything: bytes that are no frames, frames for this unit
or for other units, requests whose responses are missing, in any bursts. A poll
may then end in the middle of a burst, and a poll that waits for the response of
another unit takes the next burst for it.

A silence that lasts as long as the read timeout ends this. A call that waits
through it is answered with nothing, and the poll ends without a further call.
Every poll before hears at least one byte or takes one burst. So after as many
polls as there are bytes and bursts the server listens to the bus as if nothing
had been on it, and serves what comes then.

What the server has made of the noise is a list of exchanges whose frames lie in
the noise one behind the other, unless the noise contains a hazard.
-/

namespace ModbusRtu
namespace Port

open Kernel

section Silence

variable {δ : Type}

/-- A call that waits through a pause is answered with nothing. -/
def Silent (pause : Int32) : (q : LineCall) → LineAnswer q → Prop
  | .read _ t, a => pause ≤ t ∧ a.stored = [] ∧ a.ret = 0
  | .write _ _, _ => False

/-- A reception has timed out. -/
def TimedOut (r : NmbsError × δ) : Prop :=
  r.1 = .errorTimeout

variable {crcCalc : List UInt8 → UInt16}
variable {pause bt rt t : Int32}
variable {late : NmbsError × δ → Prop}
variable {heard : List UInt8} {d : δ}

/-- A call that does not wait through a pause is no last one. -/
theorem stopsAt_quick
    {n : Nat} {next : ReadAnswer n → Conduct δ} (ht : t < pause)
    (h : ∀ a, StopsAt (Silent pause) late (next a)) :
    StopsAt (Silent pause) late (.ask (.read n t) next) := by
  intro a
  refine ⟨h a, ?_⟩
  rintro ⟨hwait, -⟩
  exact absurd hwait (Int32.not_le.mpr ht)

/-- A call that may wait through a pause is the last one if it does. -/
theorem stopsAt_waiting
    {n : Nat} {next : ReadAnswer n → Conduct δ}
    (h : ∀ a, StopsAt (Silent pause) late (next a))
    (hlast : ∀ a : ReadAnswer n, a.stored = [] → a.ret = 0 →
      ∃ r, next a = .ret r ∧ late r) :
    StopsAt (Silent pause) late (.ask (.read n t) next) := by
  intro a
  refine ⟨h a, ?_⟩
  rintro ⟨-, hstored, hret⟩
  exact hlast a hstored hret

theorem stopsAt_listen
    {n : Nat} {next : List UInt8 → Conduct δ} (ht : t < pause)
    (h : ∀ heard, StopsAt (Silent pause) late (next heard)) :
    StopsAt (Silent pause) late (listen n t heard d next) := by
  refine stopsAt_quick ht fun a => ?_
  split
  · trivial
  · split
    · exact h _
    · trivial

theorem stopsAt_listenCheck
    {next : Conduct δ} (ht : bt < pause)
    (h : StopsAt (Silent pause) late next) :
    StopsAt (Silent pause) late (listenCheck crcCalc bt heard d next) := by
  refine stopsAt_quick ht fun a => ?_
  split
  · trivial
  · split
    · exact h
    · trivial

/-- Where the first byte of a response does not come, the poll times out. -/
theorem stopsAt_open
    {next : List UInt8 → Conduct δ}
    (h : ∀ heard, StopsAt (Silent pause) TimedOut (next heard)) :
    StopsAt (Silent pause) TimedOut (listen 1 rt [] d next) := by
  refine stopsAt_waiting (fun a => ?_) fun a hstored hret => ?_
  · split
    · trivial
    · split
      · exact h _
      · trivial
  · have hinside : ¬ msgBufSize <
        ([] : List UInt8).length + ([] : List UInt8).length := by
      decide
    have hshort : transferStatus 0 1 ≠ .errorNone := by
      decide
    rw [hstored, hret, if_neg hinside, if_neg hshort]
    exact ⟨_, rfl, rfl⟩

variable {unit fc : UInt8}

theorem stopsAt_overhearHeader
    {next : List UInt8 → Conduct δ} (ht : bt < pause)
    (h : ∀ heard, StopsAt (Silent pause) TimedOut (next heard)) :
    StopsAt (Silent pause) TimedOut
      (overhearHeader crcCalc bt rt unit fc d next) := by
  refine stopsAt_open fun heard => stopsAt_listen ht fun heard => ?_
  split
  · trivial
  · split
    · exact h heard
    · split
      · refine stopsAt_listen ht fun heard => stopsAt_listenCheck ht ?_
        split
        · trivial
        · trivial
      · trivial

theorem stopsAt_overhearWrite
    {first second : UInt16} (ht : bt < pause) :
    StopsAt (Silent pause) TimedOut
      (overhearWrite crcCalc bt rt unit fc first second d) := by
  refine stopsAt_overhearHeader ht fun heard => ?_
  refine stopsAt_listen ht fun heard => stopsAt_listenCheck ht ?_
  split
  · trivial
  · trivial

/-- A response is waited for once, at its first byte. -/
theorem stopsAt_overhear
    {buf : ByteMem} (ht : bt < pause) (r : Request) :
    StopsAt (Silent pause) TimedOut
      (overhear crcCalc bt rt unit buf d r) := by
  cases r with
  | readRegisters address quantity =>
      refine stopsAt_overhearHeader ht fun heard => ?_
      refine stopsAt_listen ht fun heard => ?_
      split
      · trivial
      · refine stopsAt_listen ht fun heard => stopsAt_listenCheck ht ?_
        split
        · trivial
        · trivial
  | writeRegister address value =>
      exact stopsAt_overhearWrite ht
  | writeRegisters address quantity byteCount data =>
      exact stopsAt_overhearWrite ht
  | writeRecords data =>
      refine stopsAt_overhearHeader ht fun heard => ?_
      refine stopsAt_listen ht fun heard => ?_
      split
      · trivial
      · refine stopsAt_listen ht fun heard => ?_
        dsimp only
        split
        · trivial
        · refine stopsAt_quick ht fun a => ?_
          split
          · trivial
          · split
            · trivial
            · split
              · trivial
              · trivial

theorem stopsAt_deliver (reply : Reply) :
    StopsAt (Silent pause) late (deliver crcCalc bt unit fc reply d) := by
  rw [deliver]
  split
  · trivial
  · exact fun ret => ⟨trivial, fun h => h.elim⟩

variable {conf : NmbsConf δ} {old : ByteMem}

theorem stopsAt_checkRequest (ht : bt < pause) (r : Request) :
    StopsAt (Silent pause) TimedOut
      (checkRequest conf bt rt unit old r d) := by
  refine stopsAt_listenCheck ht ?_
  rw [meetRequest]
  dsimp only
  split
  · split
    · trivial
    · exact stopsAt_deliver _
  · exact stopsAt_overhear ht r

theorem stopsAt_hearRequest (hpause : 0 < pause) (ht : bt < pause) :
    StopsAt (Silent pause) TimedOut
      (hearRequest conf bt rt unit fc old d) := by
  rw [hearRequest]
  split
  · exact stopsAt_listen ht fun h => stopsAt_checkRequest ht _
  · split
    · exact stopsAt_listen ht fun h => stopsAt_checkRequest ht _
    · split
      · refine stopsAt_listen ht fun h => stopsAt_listen ht fun h => ?_
        split
        · trivial
        · exact stopsAt_checkRequest ht _
      · split
        · refine stopsAt_listen ht fun h => ?_
          split
          · trivial
          · exact stopsAt_listen ht fun h => stopsAt_checkRequest ht _
        · refine stopsAt_quick hpause fun a => ?_
          split
          · exact stopsAt_deliver _
          · trivial

/-- A call that is answered with silence is the last one of a poll. -/
theorem stopsAt_frameServer (hpause : 0 < pause) (ht : bt < pause) :
    StopsAt (Silent pause) (fun _ => True)
      (frameServer conf bt rt old d) := by
  refine stopsAt_waiting (fun a => ?_) fun a _ hret => ?_
  · split
    · trivial
    · refine stopsAt_listen ht fun heard => ?_
      refine (stopsAt_hearRequest hpause ht).bind (fun r => ?_) ?_
      · rw [dropRest]
        split
        · exact stopsAt_quick hpause fun a => trivial
        · trivial
      · rintro ⟨err, d'⟩ rfl
        exact ⟨_, rfl, trivial⟩
  · rw [hret]
    exact ⟨_, rfl, trivial⟩

end Silence

section Noise

variable {pause : Int32}
variable {noise : List UInt8} {bursts before : List (List UInt8)}
variable {k : Nat} {c : BurstLine} {line : Line}

/--
Some of the noise has been heard, and fewer than k bytes and bursts of it are
still to come, with a silence and other bursts behind them.
-/
structure InNoise (noise : List UInt8) (bursts before : List (List UInt8))
    (k : Nat) (c : BurstLine) (line : Line) : Prop where
  rest : ∃ rest : List (List UInt8), c.coming = rest ++ [] :: bursts ∧
    noise = line.heard ++ (c.current ++ rest.flatten) ∧
    c.current.length + rest.flatten.length + rest.length < k
  sent : c.sent = before ++ line.sent

/-- The noise has been heard, and the silence is over. -/
structure PastNoise (noise : List UInt8) (bursts before : List (List UInt8))
    (c : BurstLine) (line : Line) : Prop where
  heard : line.heard = noise
  current : c.current = []
  coming : c.coming = bursts
  sent : c.sent = before ++ line.sent

/--
A call in the noise is answered from it or by the silence behind it. One that
waits through pauses for a byte or more has less of the noise before it then.
-/
theorem InNoise.read
    (h : InNoise noise bursts before (k + 1) c line) {n l : Nat} {t : Int32}
    (hl : k ≤ l) (hless : l = k + 1 ∨ 0 < n ∧ pause ≤ t) :
    InNoise noise bursts before l
        { c.wait pause t with
          current := (c.wait pause t).current.drop n }
        (line.hear ((c.wait pause t).current.take n)) ∨
      (pause ≤ t ∧ (c.wait pause t).current = []) ∧
        PastNoise noise bursts before
          { c.wait pause t with
            current := (c.wait pause t).current.drop n }
          (line.hear ((c.wait pause t).current.take n)) := by
  rcases h with ⟨⟨rest, hcoming, hnoise, hk⟩, hsent⟩
  obtain ⟨current, coming, sent⟩ := c
  dsimp only at hcoming hnoise hk hsent
  subst hcoming
  cases current with
  | cons b current =>
      rw [wait_of_cons]
      refine Or.inl ⟨⟨rest, rfl, ?_, ?_⟩, hsent⟩
      · rw [Line.hear, List.append_assoc, ← List.append_assoc (List.take ..),
          List.take_append_drop, hnoise]
      · simp only [List.length_drop, List.length_cons] at hk ⊢
        omega
  | nil =>
      by_cases ht : pause ≤ t
      · cases rest with
        | nil =>
            have hwait : BurstLine.wait pause t
                ⟨[], [] ++ [] :: bursts, sent⟩ = ⟨[], bursts, sent⟩ :=
              if_pos ht
            rw [hwait]
            refine Or.inr ⟨⟨ht, rfl⟩, ?_, List.drop_nil, rfl, hsent⟩
            rw [List.take_nil, Line.hear_nil, hnoise]
            simp
        | cons burst rest =>
            have hwait : BurstLine.wait pause t
                ⟨[], burst :: rest ++ [] :: bursts, sent⟩ =
                ⟨burst, rest ++ [] :: bursts, sent⟩ := if_pos ht
            rw [hwait]
            refine Or.inl ⟨⟨rest, rfl, ?_, ?_⟩, hsent⟩
            · rw [Line.hear, List.append_assoc,
                ← List.append_assoc (List.take ..), List.take_append_drop,
                hnoise]
              rfl
            · simp only [List.flatten_cons, List.length_append,
                List.length_cons, List.length_nil, List.length_drop]
                at hk ⊢
              omega
      · rw [wait_of_lt (Int32.not_le.mp ht)]
        refine Or.inl ⟨⟨rest, rfl, ?_, ?_⟩, hsent⟩
        · rw [List.take_nil, Line.hear_nil, hnoise, List.drop_nil]
        · have hlast : l = k + 1 := hless.resolve_right fun h => ht h.2
          rw [List.drop_nil, hlast]
          exact hk

theorem answerOf_nil (n : Nat) :
    (answerOf n []).stored = [] ∧ (answerOf n []).ret = 0 := by
  simp [answerOf]

/-- What a line of noise answers any line may answer, up to the silence. -/
theorem InNoise.answer
    (h : InNoise noise bursts before k c line)
    {q : LineCall} {a : LineAnswer q} {c' : BurstLine}
    (hanswer : answering (respond pause) c q a c') :
    ∃ line', anyLine line q a line' ∧
      (InNoise noise bursts before k c' line' ∨
        Silent pause q a ∧ PastNoise noise bursts before c' line') := by
  cases q with
  | read n t =>
      obtain ⟨rfl, rfl⟩ := Prod.mk.inj hanswer
      refine ⟨_, rfl, ?_⟩
      cases k with
      | zero =>
          rcases h with ⟨⟨rest, -, -, hk⟩, -⟩
          exact absurd hk (Nat.not_lt_zero _)
      | succ k =>
          refine (h.read (Nat.le_succ k) (Or.inl rfl)).imp id ?_
          rintro ⟨⟨ht, hnone⟩, hpast⟩
          refine ⟨⟨ht, ?_⟩, hpast⟩
          rw [hnone]
          exact answerOf_nil n
  | write bytes t =>
      obtain ⟨rfl, rfl⟩ := Prod.mk.inj hanswer
      refine ⟨_, rfl, Or.inl ⟨h.rest, ?_⟩⟩
      rw [Line.say, h.sent, List.append_assoc]

end Noise

section Polling

variable {δ : Type}
variable {conf : NmbsConf δ}
variable {pause bt rt : Int32}
variable {noise : List UInt8} {bursts before : List (List UInt8)}
variable {k : Nat} {c : BurstLine} {line : Line}

/-- One poll makes progress in the noise, or the silence ends it. -/
theorem ends_frameServer_noise
    (hpause : 0 < pause) (ht : bt < pause) (hrt : pause ≤ rt)
    {wrong : Line → Prop} {old : ByteMem} {d : δ}
    {post : NmbsError × δ → Line → Prop}
    (h : InNoise noise bursts before (k + 1) c line)
    (hends : Ends anyLine wrong (frameServer conf bt rt old d) line post) :
    Ends (answering (respond pause))
      (fun c' => ∃ line', InNoise noise bursts before k c' line' ∧
        wrong line')
      (frameServer conf bt rt old d) c
      fun r c' => ∃ line', (InNoise noise bursts before k c' line' ∨
        PastNoise noise bursts before c' line') ∧ post r line' := by
  have hstops := @stopsAt_frameServer δ pause bt rt d conf old hpause ht
  rintro a c' hanswer
  obtain ⟨rfl, rfl⟩ := Prod.mk.inj hanswer
  have hnext := hends (answerOf 1 (c.wait pause rt).current) _ rfl
  rcases h.read (Nat.le_refl k) (Or.inr ⟨Nat.one_pos, hrt⟩) with
    hin | ⟨⟨-, hnone⟩, hpast⟩
  · exact Ends.imitated_until (fun _ _ _ _ _ hc => hc.answer)
      (fun c' line' hc hwrong => ⟨line', hc, hwrong⟩) hin
      (hstops _).1 hnext
  · have hsilent : Silent pause (.read 1 rt)
        (answerOf 1 (c.wait pause rt).current) := by
      rw [hnone]
      exact ⟨hrt, answerOf_nil 1⟩
    obtain ⟨r, hr, -⟩ := (hstops _).2 hsilent
    rw [hr] at hnext ⊢
    exact ⟨_, Or.inr hpast, hnext⟩

theorem poll_in_noise
    (hrtu : conf.transport = .nmbsTransportRtu) {s : Server δ}
    (hpause : 0 < pause) (hbt : s.byteTimeoutMs < pause)
    (hrt : pause ≤ s.readTimeoutMs)
    (h : InNoise noise bursts before (k + 1) c line) :
    Leads (answering (respond pause))
      (fun c' => ∃ line', InNoise noise bursts before k c' line' ∧
        ∃ bytes, Hazard conf s.msg.buf s.device bytes ∧
          line' = line.hear bytes)
      (nmbsServerPoll conf) s c fun _ s' c' =>
        s'.byteTimeoutMs = s.byteTimeoutMs ∧
          s'.readTimeoutMs = s.readTimeoutMs ∧
          ∃ line', (InNoise noise bursts before k c' line' ∨
              PastNoise noise bursts before c' line') ∧
            ∃ xs, Outcome conf xs s.device line s'.device line' := by
  have hframes := ends_frameServer_noise hpause hbt hrt h
    (@ends_frameServer δ conf s.byteTimeoutMs s.readTimeoutMs
      (fun line' => ∃ bytes, Hazard conf s.msg.buf s.device bytes ∧
        line' = line.hear bytes)
      line s.msg.buf s.device fun bytes hhazard => ⟨bytes, hhazard, rfl⟩)
  refine ((poll_agrees hrtu s).ends hframes).mono ?_ fun _ => id
  rintro r c' ⟨r', hsame, line', hphase, xs, -, houtcome⟩
  refine ⟨hsame.byteTimeout, hsame.readTimeout, line', hphase, xs, ?_⟩
  rw [hsame.device]
  exact houtcome

/-- Exchanges whose frames lie in the noise end before a hazard in it. -/
def NoiseHazard (conf : NmbsConf δ) (noise : List UInt8) (d : δ)
    (line : Line) : Prop :=
  ∃ xs d' mid old bytes, Outcome conf xs d line d' mid ∧
    Hazard conf old d' bytes ∧ mid.heard ++ bytes <+: noise

/-- So many polls at most are in the noise. -/
theorem exists_polls_in_noise
    (hrtu : conf.transport = .nmbsTransportRtu) (s : Server δ)
    (hpause : 0 < pause) (hbt : s.byteTimeoutMs < pause)
    (hrt : pause ≤ s.readTimeoutMs)
    (h : InNoise noise bursts before k c line) :
    ∃ p ≤ k, Leads (answering (respond pause))
      (fun _ => NoiseHazard conf noise s.device line)
      (times (nmbsServerPoll conf) p) s c fun errs s' c' =>
        errs.length = p ∧ s'.byteTimeoutMs = s.byteTimeoutMs ∧
          s'.readTimeoutMs = s.readTimeoutMs ∧
          ∃ line' xs, PastNoise noise bursts before c' line' ∧
            Outcome conf xs s.device line s'.device line' := by
  induction k generalizing s c line with
  | zero =>
      rcases h with ⟨⟨rest, -, -, hk⟩, -⟩
      exact absurd hk (Nat.not_lt_zero _)
  | succ k ih =>
      have hfirst := poll_in_noise hrtu hpause hbt hrt h
      rw [Leads, ends_answering_iff] at hfirst
      cases hrun : runDialogue (respond pause) (nmbsServerPoll conf s) c with
      | mk result c' =>
          rw [hrun] at hfirst
          cases result with
          | none =>
              rcases hfirst with ⟨line', hin, bytes, hhazard, rfl⟩
              rcases hin with ⟨⟨rest, -, hnoise, -⟩, -⟩
              refine ⟨1, by omega, ?_⟩
              rw [times, leads_bind, Leads, ends_answering_iff, hrun]
              refine ⟨[], s.device, line, s.msg.buf, bytes,
                .refl conf s.device line, hhazard, ?_⟩
              exact ⟨c'.current ++ rest.flatten, hnoise.symm⟩
          | some r =>
              rcases hfirst with ⟨hbt', hrt', line', hphase, xs, houtcome⟩
              rcases hphase with hin | hpast
              · obtain ⟨p, hp, hrest⟩ := ih r.2 (by rw [hbt']; exact hbt)
                  (by rw [hrt']; exact hrt) hin
                refine ⟨p + 1, by omega, ?_⟩
                rw [times, leads_bind, Leads, ends_answering_iff, hrun]
                refine leads_bind.mpr (hrest.mono ?_ ?_)
                · rintro errs s'' c'' ⟨rfl, hbt'', hrt'', line'', ys, hpast,
                    hnext⟩
                  exact ⟨rfl, hbt''.trans hbt', hrt''.trans hrt', line'',
                    xs ++ ys, hpast, houtcome.trans hnext⟩
                · rintro c'' ⟨ys, d', mid, old, bytes, hnext, hhazard⟩
                  exact ⟨xs ++ ys, d', mid, old, bytes,
                    houtcome.trans hnext, hhazard⟩
              · refine ⟨1, by omega, ?_⟩
                rw [times, leads_bind, Leads, ends_answering_iff, hrun]
                exact ⟨rfl, hbt', hrt', line', xs, hpast, houtcome⟩

/-- What polls lead to behind the noise they lead to from before it. -/
theorem exists_polls_then
    (hrtu : conf.transport = .nmbsTransportRtu) (s : Server δ)
    (hpause : 0 < pause) (hbt : s.byteTimeoutMs < pause)
    (hrt : pause ≤ s.readTimeoutMs)
    (noise : List (List UInt8)) (n : Nat) {wrong : Prop}
    {post : List NmbsError → Server δ → BurstLine → Prop}
    (hnext : ∀ xs s' line, s'.byteTimeoutMs = s.byteTimeoutMs →
      s'.readTimeoutMs = s.readTimeoutMs →
      Outcome conf xs s.device ⟨[], []⟩ s'.device line →
      line.heard = noise.flatten →
      Leads (answering (respond pause)) (fun _ => wrong)
        (times (nmbsServerPoll conf) n) s'
        ⟨[], bursts, before ++ line.sent⟩ post) :
    ∃ p ≤ noise.flatten.length + noise.length + 1,
      Leads (answering (respond pause))
        (fun _ => NoiseHazard conf noise.flatten s.device ⟨[], []⟩ ∨ wrong)
        (times (nmbsServerPoll conf) (p + n)) s
        ⟨[], noise ++ [] :: bursts, before⟩
        fun errs s' c => post (errs.drop p) s' c := by
  have hstart : InNoise noise.flatten bursts before
      (noise.flatten.length + noise.length + 1)
      ⟨[], noise ++ [] :: bursts, before⟩ ⟨[], []⟩ :=
    ⟨⟨noise, rfl, rfl, by simp⟩, (List.append_nil _).symm⟩
  obtain ⟨p, hp, hpolls⟩ :=
    exists_polls_in_noise hrtu s hpause hbt hrt hstart
  refine ⟨p, hp, ?_⟩
  rw [leads_times_add]
  refine hpolls.mono ?_ fun c hhazard => Or.inl hhazard
  rintro errs s' ⟨current, coming, sent⟩ ⟨rfl, hbt', hrt', line, xs,
    ⟨hheard, rfl, rfl, hsent⟩, houtcome⟩
  dsimp only at hsent
  subst hsent
  refine (hnext xs s' line hbt' hrt' houtcome hheard).mono ?_
    fun _ => Or.inr
  intro errs' s'' c hpost
  rw [List.drop_left]
  exact hpost

/--
Whatever noise has been on the bus, a silence of the read timeout brings the
server back into step: after at most as many polls as the noise has bytes and
bursts, and one more, the transactions that follow are met one poll each, from a
device that is what exchanges found in the noise have made of it.
-/
theorem silence_resynchronises
    (hrtu : conf.transport = .nmbsTransportRtu) (s : Server δ)
    (hpause : 0 < pause) (hbt : s.byteTimeoutMs < pause)
    (hrt : pause ≤ s.readTimeoutMs)
    (noise : List (List UInt8))
    (ts : List Transaction) (hvalid : ∀ t ∈ ts, t.Valid conf) :
    ∃ p ≤ noise.flatten.length + noise.length + 1,
      Leads (answering (respond pause))
        (fun _ => NoiseHazard conf noise.flatten s.device ⟨[], []⟩ ∨
          ∃ xs d' line, Outcome conf xs s.device ⟨[], []⟩ d' line ∧
            line.heard = noise.flatten ∧ converse conf ts d' = none)
        (times (nmbsServerPoll conf) (p + ts.length)) s
        ⟨[], noise ++ [] :: ts.flatMap (Transaction.bursts conf.crcCalc),
          []⟩
        fun errs s' c =>
          errs.drop p = ts.map Transaction.status ∧
            c.current = [] ∧ c.coming = [] ∧
            ∃ xs d' line frames,
              Outcome conf xs s.device ⟨[], []⟩ d' line ∧
              line.heard = noise.flatten ∧
              converse conf ts d' = some (frames, s'.device) ∧
              c.sent = line.sent ++ frames := by
  have hnext : ∀ xs s' line, s'.byteTimeoutMs = s.byteTimeoutMs →
      s'.readTimeoutMs = s.readTimeoutMs →
      Outcome conf xs s.device ⟨[], []⟩ s'.device line →
      line.heard = noise.flatten →
      Leads (answering (respond pause))
        (fun _ => ∃ xs d' line, Outcome conf xs s.device ⟨[], []⟩ d' line ∧
          line.heard = noise.flatten ∧ converse conf ts d' = none)
        (times (nmbsServerPoll conf) ts.length) s'
        ⟨[], ts.flatMap (Transaction.bursts conf.crcCalc), [] ++ line.sent⟩
        fun errs s'' c => errs = ts.map Transaction.status ∧
          c.current = [] ∧ c.coming = [] ∧
          ∃ xs d' line frames,
            Outcome conf xs s.device ⟨[], []⟩ d' line ∧
            line.heard = noise.flatten ∧
            converse conf ts d' = some (frames, s''.device) ∧
            c.sent = line.sent ++ frames := by
    intro xs s' line hbt' hrt' houtcome hheard
    have hconversation := conversation hrtu s' hpause
      (by rw [hbt']; exact hbt) (by rw [hrt']; exact hrt) ts hvalid line.sent
    refine hconversation.mono ?_ fun c hnone =>
      ⟨xs, s'.device, line, houtcome, hheard, hnone⟩
    rintro errs s'' c ⟨rfl, -, -, hcurrent, hcoming, frames, hframes, hsent⟩
    exact ⟨rfl, hcurrent, hcoming, xs, s'.device, line, frames, houtcome,
      hheard, hframes, hsent⟩
  exact exists_polls_then hrtu s hpause hbt hrt noise ts.length hnext

/-- A hazard takes more than a few bytes. -/
theorem Hazard.length
    {old : ByteMem} {d : δ} {bytes : List UInt8}
    (h : Hazard conf old d bytes) :
    5 ≤ bytes.length := by
  cases h with
  | registers hfields =>
      simp only [List.length_append, List.length_cons, hfields]
      omega
  | records =>
      simp [withCheck, Request.body, Request.fields]
  | overheard =>
      simp [withCheck, Request.body, Request.fields]
      omega

theorem not_noiseHazard
    {d : δ} (hshort : noise.length < 5) :
    ¬ NoiseHazard conf noise d line := by
  rintro ⟨xs, d', mid, old, bytes, -, hhazard, hprefix⟩
  have hlong := hhazard.length
  have hle := hprefix.length_le
  rw [List.length_append] at hle
  omega

/-- Behind a stray byte and a silence a request is answered. -/
theorem silence_resynchronises_stray :
    ∃ p ≤ 3, Leads (answering (respond 150)) (fun _ => False)
      (times (nmbsServerPoll bareConf) (p + 1)) bareServer
      ⟨[], [[7], [], requestFrame nmbsCrcCalc (1, .readRegisters 0 1)], []⟩
      fun errs _ c => errs.drop p = [.errorNone] ∧
        ∃ frames, c.sent = frames ++ [withCheck nmbsCrcCalc [1, 0x83, 1]] := by
  have hvalid : ∀ t ∈ [Transaction.ours 1 (.readRegisters 0 1)],
      t.Valid bareConf := by
    intro t ht
    obtain rfl := List.mem_singleton.mp ht
    exact ⟨Or.inr rfl, trivial, trivial⟩
  obtain ⟨p, hp, hpolls⟩ := @silence_resynchronises Unit bareConf 150 rfl
    bareServer (by decide) (by decide) (by decide) [[7]] _ hvalid
  refine ⟨p, hp, hpolls.mono ?_ ?_⟩
  · rintro errs s' c ⟨herrs, -, -, xs, d', line, frames, -, -, hframes, hsent⟩
    obtain ⟨rfl, -⟩ := Prod.mk.inj (Option.some.inj hframes)
    exact ⟨herrs, line.sent, hsent⟩
  · rintro c (hhazard | ⟨xs, d', line, -, -, hnone⟩)
    · exact not_noiseHazard (by decide) hhazard
    · cases hnone

end Polling

end Port
end ModbusRtu
