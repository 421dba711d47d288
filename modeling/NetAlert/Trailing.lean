import NetAlert.OwnRate
import NetAlert.TickOrder

/-!
# NetAlert.Trailing — two processors, one of which is drained of a key more often

Two processors process the same flows under rules with the same prefixes and directions, and the first is
drained of one key at times when the second is not.  `Behind C`: the captures of that key are related by `C`,
one of the two relations of `Backlog`; captures of other prefixes are the same.

* `Behind.flow`, `Behind.tick`: flows and ticks keep the relation, and a tick that drains the key of both
  lets the second catch up.
* `Behind.drain_eq`: caught up, a drain of the key gives the same flows.
-/

namespace NetAlert

variable {T : IpText} {key : String × Direction}
  {C : (CapturedFlow → Bool) → List CapturedFlow → List CapturedFlow → Prop}

/-! ## Captures -/

/-- The captures of two rules with one prefix: for the prefix of the key those of its direction are related by
`C`, for any other prefix all are the same. -/
structure Trailing (key : String × Direction)
    (C : (CapturedFlow → Bool) → List CapturedFlow → List CapturedFlow → Prop) (ipPrefix : String) (cap : ℕ)
    (q q' : List CapturedFlow) : Prop where
  room : q.length ≤ max cap 1
  room' : q'.length ≤ max cap 1
  onKey : ipPrefix = key.1 → C (fun cf => cf.direction = key.2) q q'
  offKey : ipPrefix ≠ key.1 → q' = q

section Trailing

variable {ipPrefix : String} {cap : ℕ} {q q' : List CapturedFlow}

theorem Trailing.ahead (h : Trailing key Backlog.CaughtUp ipPrefix cap q q') :
    Trailing key Backlog.Ahead ipPrefix cap q q' :=
  ⟨h.room, h.room', fun hp => (h.onKey hp).ahead, h.offKey⟩

theorem Trailing.push (hC : Backlog.Stable C) (h : Trailing key C ipPrefix cap q q') (cf : CapturedFlow) :
    Trailing key C ipPrefix cap (Backlog.push cap q cf) (Backlog.push cap q' cf) := by
  refine ⟨Backlog.length_push_le h.room cf, Backlog.length_push_le h.room' cf, fun hp => ?_, fun hp => ?_⟩
  · exact hC.push (h.onKey hp) h.room h.room' cf
  · rw [h.offKey hp]

theorem length_spare_le {keys : List (String × Direction)} (h : q.length ≤ max cap 1) :
    (spare ipPrefix keys q).length ≤ max cap 1 :=
  (List.length_filter_le _ _).trans h

/-- With the key of a prefix spared, all captures of the prefix are kept or those of the key only. -/
theorem spare_cases {keys : List (String × Direction)} (hkey : key ∉ keys) :
    (∀ q, spare key.1 keys q = q) ∨ ∀ q, spare key.1 keys q = q.filter fun cf => cf.direction = key.2 := by
  have htwo : ∀ a b c : Direction, a ≠ c → b ≠ c → a = b := by
    intro a b c
    cases a <;> cases b <;> cases c <;> simp
  by_cases hother : ∃ d, (key.1, d) ∈ keys
  · obtain ⟨d, hd⟩ := hother
    have hne : d ≠ key.2 := by
      rintro rfl
      exact hkey hd
    refine .inr fun q => List.filter_congr fun cf _ => ?_
    rw [decide_eq_decide]
    constructor
    · intro hnot
      by_contra hcf
      exact hnot (htwo cf.direction d key.2 hcf hne ▸ hd)
    · intro hcf
      rw [hcf]
      exact hkey
  · exact .inl fun q => List.filter_eq_self.mpr fun cf _ => by simpa using fun h => hother ⟨_, h⟩

/-- **Other keys** are drained of both. -/
theorem Trailing.others (hC : Backlog.Stable C) (h : Trailing key C ipPrefix cap q q')
    {keys : List (String × Direction)} (hkey : key ∉ keys) :
    Trailing key C ipPrefix cap (spare ipPrefix keys q) (spare ipPrefix keys q') := by
  refine ⟨length_spare_le h.room, length_spare_le h.room', fun hp => ?_, fun hp => by rw [h.offKey hp]⟩
  subst hp
  rcases spare_cases hkey with hall | honly
  · rw [hall, hall]
    exact h.onKey rfl
  · rw [honly, honly]
    exact hC.keep (h.onKey rfl)

/-- **The key** is drained of both. -/
theorem Trailing.both (h : Trailing key Backlog.Ahead ipPrefix cap q q') :
    Trailing key Backlog.CaughtUp ipPrefix cap (spare ipPrefix [key] q) (spare ipPrefix [key] q') := by
  refine ⟨length_spare_le h.room, length_spare_le h.room', fun hp => ?_, fun hp => by rw [h.offKey hp]⟩
  subst hp
  rw [spare_key, spare_key]
  simpa only [ne_eq, decide_not] using (h.onKey rfl).drain

/-- **The key** is drained of the first only. -/
theorem Trailing.left (h : Trailing key Backlog.Ahead ipPrefix cap q q') :
    Trailing key Backlog.Ahead ipPrefix cap (spare ipPrefix [key] q) q' := by
  refine ⟨length_spare_le h.room, h.room', fun hp => ?_, fun hp => ?_⟩
  · subst hp
    rw [spare_key]
    simpa only [ne_eq, decide_not] using (h.onKey rfl).drain_left
  · rw [h.offKey hp, spare_of_ne hp]

end Trailing

/-! ## Rules -/

/-- Rules of one prefix that watch the same directions, and their captures. -/
structure Trails (T : IpText) (key : String × Direction)
    (C : (CapturedFlow → Bool) → List CapturedFlow → List CapturedFlow → Prop) (rule rule' : ProcessedRule) :
    Prop where
  ipPrefix : rule'.ipPrefix = rule.ipPrefix
  network : rule'.network = rule.network
  size : rule'.captureBufferSize = rule.captureBufferSize
  watches : ∀ d, rule'.Watches d ↔ rule.Watches d
  captures : Trailing key C (T.net rule.ipPrefix) rule.captureBufferSize rule.captureBuffer rule'.captureBuffer

section Trails

variable {rule rule' : ProcessedRule}

theorem watches_of_layout {d : Direction} (h : rule'.layout = rule.layout) : rule'.Watches d ↔ rule.Watches d := by
  simp only [ProcessedRule.Watches, ← Option.isSome_iff_exists, exists_and_left, isSome_of_layout h]

/-- **One flow** to both. -/
theorem Trails.route (hC : Backlog.Stable C) (h : Trails T key C rule rule') {flow : FlowRecord}
    {next next' : ProcessedRule} (hr : rule.route flow = some next) (hr' : rule'.route flow = some next') :
    Trails T key C next next' := by
  have hR := route_routed hr
  have hR' := route_routed hr'
  have hcaptures : Trailing key C (T.net rule.ipPrefix) rule.captureBufferSize next.captureBuffer
      next'.captureBuffer := by
    by_cases hw : ∃ d, flow.directionFor rule.network.contains = some d ∧ rule.Watches d
    · obtain ⟨d, hd, hw⟩ := hw
      rw [hR.captured d hd hw, hR'.captured d (by rw [h.network]; exact hd) ((h.watches d).mpr hw)]
      unfold ProcessedRule.capture
      rw [h.size]
      exact h.captures.push hC ⟨flow, d⟩
    · rw [hR.ignored fun d hd hd' => hw ⟨d, hd, hd'⟩, hR'.ignored fun d hd hd' => hw ⟨d, ?_, ?_⟩]
      · exact h.captures
      · rw [← h.network]
        exact hd
      · exact (h.watches d).mp hd'
  refine ⟨?_, ?_, ?_, fun d => ?_, ?_⟩
  · rw [hR'.frame.ipPrefix, hR.frame.ipPrefix, h.ipPrefix]
  · rw [hR'.frame.network, hR.frame.network, h.network]
  · rw [hR'.frame.size, hR.frame.size, h.size]
  · rw [watches_of_layout (route_layout hr'), watches_of_layout (route_layout hr), h.watches]
  · rw [hR.frame.ipPrefix, hR.frame.size]
    exact hcaptures

/-- Some keys are drained, of both or of one of them. -/
theorem Trails.without {C' : (CapturedFlow → Bool) → List CapturedFlow → List CapturedFlow → Prop}
    (h : Trails T key C rule rule') {keys keys' : List (String × Direction)}
    (hspare : ∀ {ipPrefix cap q q'}, Trailing key C ipPrefix cap q q' →
      Trailing key C' ipPrefix cap (spare ipPrefix keys q) (spare ipPrefix keys' q')) :
    Trails T key C' (rule.without T keys) (rule'.without T keys') := by
  refine ⟨h.ipPrefix, h.network, h.size, h.watches, ?_⟩
  show Trailing key C' (T.net rule.ipPrefix) rule.captureBufferSize
    (spare (T.net rule.ipPrefix) keys rule.captureBuffer) (spare (T.net rule'.ipPrefix) keys' rule'.captureBuffer)
  rw [h.ipPrefix]
  exact hspare h.captures

end Trails

/-! ## Processors -/

/-- The rules of the first processor trail those of the second. -/
def Behind (T : IpText) (key : String × Direction)
    (C : (CapturedFlow → Bool) → List CapturedFlow → List CapturedFlow → Prop) (p q : FlowProcessor) : Prop :=
  List.Forall₂ (Trails T key C) p.rules q.rules

section Behind

variable {p p' q q' : FlowProcessor}

theorem Behind.ahead (h : Behind T key Backlog.CaughtUp p q) : Behind T key Backlog.Ahead p q :=
  List.Forall₂.imp (fun _ _ hr => { hr with captures := hr.captures.ahead }) h

/-- **Freshly loaded**, neither has captured anything. -/
theorem Behind.load {c c' : Config} {p₀ q₀ : FlowProcessor} (hp : p₀.reloadConfig T c = .ok p)
    (hq : q₀.reloadConfig T c' = .ok q) (hcap : c'.global.captureBufferSize = c.global.captureBufferSize)
    (hrules : List.Forall₂ (fun r r' => r'.ipPrefix = r.ipPrefix ∧ ∀ d, r'.watches d = r.watches d)
      c.rules c'.rules) (key : String × Direction) : Behind T key Backlog.CaughtUp p q := by
  have hF := (reloadConfig_ok hp).1
  have hF' := (reloadConfig_ok hq).1
  refine Relate.forall₂_square ?_ hrules hF hF'
  rintro r r' rule rule' ⟨htext, hwatches⟩ hb hb'
  have hnet : rule'.network = rule.network := by
    ext
    rw [hb'.network, hb.network, htext]
  refine ⟨by rw [hb'.ipPrefix, hb.ipPrefix, htext], hnet, by rw [hb'.size, hb.size, hcap], fun d => ?_, ?_⟩
  · rw [hb'.kept.watches_iff, hb.kept.watches_iff, hwatches]
  · rw [hb.capture, hb'.capture]
    exact ⟨Nat.zero_le _, Nat.zero_le _, fun _ => .refl _ [], fun _ => rfl⟩

/-- **One flow** to both. -/
theorem Behind.flow (hC : Backlog.Stable C) (h : Behind T key C p q) (hp : TableOk p.rules p.prefixTable)
    (hq : TableOk q.rules q.prefixTable) {flow : FlowRecord} (hp' : p.processFlow flow = some p')
    (hq' : q.processFlow flow = some q') : Behind T key C p' q' := by
  have hF := (processFlow_ok hp hp').2.2
  have hF' := (processFlow_ok hq hq').2.2
  exact Relate.forall₂_square (fun _ _ _ _ ht hr hr' => ht.route hC hr hr') h hF hF'

theorem Behind.without {C' : (CapturedFlow → Bool) → List CapturedFlow → List CapturedFlow → Prop}
    (h : Behind T key C p q) {keys keys' : List (String × Direction)}
    (hspare : ∀ {ipPrefix cap q q'}, Trailing key C ipPrefix cap q q' →
      Trailing key C' ipPrefix cap (spare ipPrefix keys q) (spare ipPrefix keys' q')) :
    Behind T key C' (p.without T keys) (q.without T keys') := by
  refine List.forall₂_map_left_iff.mpr (List.forall₂_map_right_iff.mpr ?_)
  exact List.Forall₂.imp (fun _ _ hr => hr.without hspare) h

/-- A key is taken out first, then the others. -/
theorem without_split (T : IpText) (p : FlowProcessor) (key : String × Direction)
    {keys others : List (String × Direction)} (h : ∀ k, k ∈ others ↔ k ∈ keys ∧ k ≠ key) :
    p.without T keys = (if key ∈ keys then p.without T [key] else p).without T others := by
  split_ifs with hkey
  · refine (without_without p fun k => ?_).symm
    rw [List.mem_singleton, h]
    constructor
    · intro hk
      by_cases heq : k = key
      · exact .inl heq
      · exact .inr ⟨hk, heq⟩
    · rintro (rfl | hk)
      · exact hkey
      · exact hk.1
  · apply without_congr p
    intro k
    rw [h]
    refine ⟨fun hk => ⟨hk, ?_⟩, fun hk => hk.1⟩
    rintro rfl
    exact hkey hk

/-- A key without captured flows. -/
theorem without_of_empty (h : (p.drainCapturedFlows T key.1 key.2).1 = []) : p.without T [key] = p := by
  have hrule : ∀ rule ∈ p.rules, rule.without T [key] = rule := by
    intro rule hr
    have hgiven : rule.given T key.1 key.2 = [] := List.flatMap_eq_nil_iff.mp h rule hr
    have hspare : spare (T.net rule.ipPrefix) [key] rule.captureBuffer = rule.captureBuffer := by
      by_cases hp : T.net rule.ipPrefix = key.1
      · rw [ProcessedRule.given, if_pos hp, List.map_eq_nil_iff, List.filter_eq_nil_iff] at hgiven
        rw [hp, spare_key, List.filter_eq_self]
        simpa using hgiven
      · exact spare_of_ne hp _
    rw [ProcessedRule.without, hspare]
  rw [FlowProcessor.without, List.map_congr_left hrule, List.map_id']

/-- **A tick** that drains the same keys of both, but the key perhaps of the first only.  If it drains the key
of both, the second catches up; if it takes the key's flows of neither, it stays caught up. -/
theorem Behind.tick (h : Behind T key Backlog.Ahead p q) {keys keys' : List (String × Direction)}
    (hkeys : ∀ k, k ≠ key → (k ∈ keys ↔ k ∈ keys')) (hkey : key ∈ keys' → key ∈ keys) :
    Behind T key Backlog.Ahead (p.without T keys) (q.without T keys') ∧
      (key ∈ keys' ∨ ((key ∈ keys → (p.drainCapturedFlows T key.1 key.2).1 = []) ∧
          Behind T key Backlog.CaughtUp p q) →
        Behind T key Backlog.CaughtUp (p.without T keys) (q.without T keys')) := by
  let others := keys'.filter fun k => k ≠ key
  have hothers' : ∀ k, k ∈ others ↔ k ∈ keys' ∧ k ≠ key := by simp [others]
  have hothers : ∀ k, k ∈ others ↔ k ∈ keys ∧ k ≠ key := by
    intro k
    rw [hothers', and_comm, and_comm (b := k ≠ key)]
    exact and_congr_right fun hne => (hkeys k hne).symm
  have hnot : key ∉ others := fun hk => ((hothers key).mp hk).2 rfl
  rw [without_split T p key hothers, without_split T q key hothers']
  by_cases hboth : key ∈ keys'
  · rw [if_pos (hkey hboth), if_pos hboth]
    have hcaught : Behind T key Backlog.CaughtUp (p.without T [key]) (q.without T [key]) := h.without Trailing.both
    have hnext := hcaught.without fun ht => ht.others Backlog.stable_caughtUp hnot
    exact ⟨hnext.ahead, fun _ => hnext⟩
  · rw [if_neg hboth]
    by_cases hfirst : key ∈ keys
    · -- only the first is drained of the key
      rw [if_pos hfirst]
      have hleft : Behind T key Backlog.Ahead (p.without T [key]) (q.without T []) :=
        h.without fun {_ _ _ q'} ht => by rw [show spare _ [] q' = q' by simp [spare]]; exact ht.left
      rw [without_nil] at hleft
      refine ⟨hleft.without fun ht => ht.others Backlog.stable_ahead hnot, ?_⟩
      rintro (hmem | ⟨hempty, hcaught⟩)
      · exact absurd hmem hboth
      · rw [without_of_empty (hempty hfirst)]
        exact hcaught.without fun ht => ht.others Backlog.stable_caughtUp hnot
    · rw [if_neg hfirst]
      refine ⟨h.without fun ht => ht.others Backlog.stable_ahead hnot, ?_⟩
      rintro (hmem | ⟨-, hcaught⟩)
      · exact absurd hmem hboth
      · exact hcaught.without fun ht => ht.others Backlog.stable_caughtUp hnot

/-- **Caught up**, the key gives the same flows. -/
theorem Behind.drain_eq (h : Behind T key Backlog.CaughtUp p q) :
    (p.drainCapturedFlows T key.1 key.2).1 = (q.drainCapturedFlows T key.1 key.2).1 := by
  have hrule : ∀ rule rule', Trails T key Backlog.CaughtUp rule rule' →
      rule.given T key.1 key.2 = rule'.given T key.1 key.2 := by
    intro rule rule' ht
    unfold ProcessedRule.given
    rw [ht.ipPrefix]
    split_ifs with hp
    · rw [(ht.captures.onKey hp).filter_eq]
    · rfl
  show p.rules.flatMap (ProcessedRule.given T key.1 key.2) = q.rules.flatMap (ProcessedRule.given T key.1 key.2)
  rw [List.flatMap_def, List.flatMap_def, Relate.forall₂_map_eq hrule h]

end Behind

end NetAlert
