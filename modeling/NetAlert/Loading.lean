import NetAlert.Daemon
import NetAlert.Reload
import NetAlert.Routing

/-!
# NetAlert.Loading — which configurations load, and what a refused one leaves behind

* `reloadConfig_ok_iff`: the processor loads a configuration iff no prefix of a rule has host bits.
  `Config.validate` does not ask for that (`validate_passes_host_bits`).
* `reload_untouched_iff`: a reload that is refused leaves processor and alert manager as they are, and
  the exporter rates too iff the refused file has the exporters in force.
-/

namespace NetAlert

variable {T : IpText} {c : Config}

/-! ## Loading -/

/-- What a processor has loaded has no host bits. -/
theorem trunc_eq_of_reload {p p' : FlowProcessor} (h : p.reloadConfig T c = .ok p') :
    ∀ r ∈ c.rules, r.ipPrefix.trunc = r.ipPrefix := by
  intro r hr
  obtain ⟨rule, -, hbuilt⟩ := Relate.forall₂_left_of_mem (reloadConfig_ok h).1.flip hr
  rw [← hbuilt.network]
  exact rule.network.trunc_eq

/-- **The processor loads a configuration** iff no prefix of a rule has host bits, validated or not. -/
theorem reloadConfig_ok_iff (T : IpText) (p : FlowProcessor) (c : Config) :
    (∃ p', p.reloadConfig T c = .ok p') ↔ ∀ r ∈ c.rules, r.ipPrefix.trunc = r.ipPrefix :=
  ⟨fun ⟨_, h⟩ => trunc_eq_of_reload h, reloadConfig_total T p⟩

/-- The configuration of the README, for the prefix 10.0.0.1/24. -/
def hostBits : Config :=
  { Config.readme with rules := Config.readme.rules.map fun r => { r with ipPrefix := .slash24 0x0A000001 } }

/-- `--check-config` accepts it, and the daemon does not start with it. -/
theorem validate_passes_host_bits : hostBits.validate IpText.dotted = .ok () ∧
    (FlowProcessor.new hostBits.global.window.asSecs).reloadConfig IpText.dotted hostBits =
      .error "Invalid prefix 10.0.0.1/24: host bits are set" := by
  decide

/-! ## Exporters -/

theorem validateExporters_ok {seen : List IpAddr} {l : List (String × ExporterConfig)}
    (h : Config.validateExporters T seen l = .ok ()) :
    (∀ e ∈ l, e.2.address ∉ seen) ∧ (l.map fun e => e.2.address).Nodup := by
  induction l generalizing seen with
  | nil => simp
  | cons e l ih =>
    obtain ⟨name, exporter⟩ := e
    unfold Config.validateExporters at h
    split_ifs at h with hseen
    obtain ⟨hnot, hnd⟩ := ih h
    have hnew : exporter.address ∉ seen := by simpa using hseen
    refine ⟨?_, List.nodup_cons.mpr ⟨?_, hnd⟩⟩
    · intro e he
      rcases List.mem_cons.mp he with rfl | he
      · exact hnew
      · exact fun hmem => hnot e he (List.mem_cons_of_mem _ hmem)
    · intro hmem
      obtain ⟨e, he, heq⟩ := List.mem_map.mp hmem
      exact hnot e he (heq ▸ List.mem_cons_self)

/-- The exporters of a valid configuration have different addresses. -/
theorem nodup_exporters (h : c.validate T = .ok ()) : (c.exporters.toPairs.map fun e => e.2.address).Nodup := by
  unfold Config.validate at h
  obtain ⟨_, -, h⟩ := Fold.except_bind_ok.mp h
  exact (validateExporters_ok h).2

/-- The exporters of the configuration are the ones in force. -/
def Config.ExportersAre (c : Config) (rates : HashMap IpAddr ℕ) : Prop :=
  ∀ address rate, rates.lookup address = some rate ↔
    ∃ e ∈ c.exporters.toPairs, e.2.address = address ∧ e.2.samplingRate = rate

theorem lookup_exporterSamplingRates (h : c.validate T = .ok ()) : c.ExportersAre c.exporterSamplingRates := by
  intro address rate
  rw [Config.exporterSamplingRates, HashMap.lookup_ofPairs_nodup]
  · simp only [List.mem_map, Prod.mk.injEq]
  · rw [List.map_map]
    exact nodup_exporters h

/-! ## A refused reload -/

/-- **A refused reload** leaves processor and alert manager as they are.  The exporter rates have been
replaced, unless the file does not load. -/
theorem Daemon.reloadConfig_refused {d : Daemon} {parsed : Except String Config}
    (h : ¬ ∃ c p, Config.load T parsed = .ok c ∧ d.processor.reloadConfig T c = .ok p) :
    d.reloadConfig T parsed = match Config.load T parsed with
      | .ok c => { d with exporterRates := c.exporterSamplingRates }
      | .error _ => d := by
  unfold Daemon.reloadConfig
  cases hload : Config.load T parsed with
  | error e => rfl
  | ok c =>
    simp only
    cases hp : d.processor.reloadConfig T c with
    | error e => rfl
    | ok p => exact absurd ⟨c, p, hload, hp⟩ h

/-- **All or nothing.**  After a reload that does not go through, the exporter rates answer every address
as before, and the processor and the alert manager are as before, iff the file does not load or its
exporters are the ones in force. -/
theorem reload_untouched_iff (T : IpText) (d : Daemon) (parsed : Except String Config)
    (h : ¬ ∃ c p, Config.load T parsed = .ok c ∧ d.processor.reloadConfig T c = .ok p) :
    let d' := d.reloadConfig T parsed
    ((∀ address, d'.exporterRates.lookup address = d.exporterRates.lookup address) ∧
        d'.processor = d.processor ∧ d'.alertManager = d.alertManager) ↔
      ∀ c, Config.load T parsed = .ok c → c.ExportersAre d.exporterRates := by
  intro d'
  have hd' : d' = _ := Daemon.reloadConfig_refused h
  cases hload : Config.load T parsed with
  | error e =>
    rw [hload] at hd'
    rw [hd']
    refine iff_of_true ⟨fun _ => rfl, rfl, rfl⟩ fun c hc => ?_
    cases hc
  | ok c =>
    rw [hload] at hd'
    have hv : c.ExportersAre c.exporterSamplingRates :=
      lookup_exporterSamplingRates (Config.load_ok_iff.mp hload).2
    rw [hd']
    constructor
    · rintro ⟨hrates, -, -⟩ c' hc' address rate
      obtain rfl := Except.ok.inj hc'
      rw [← hrates]
      exact hv address rate
    · intro hc
      refine ⟨fun address => Option.ext fun rate => ?_, rfl, rfl⟩
      exact (hv address rate).trans (hc c rfl address rate).symm

/-- A file with host bits in its prefix and another sampling rate for the exporter. -/
def resampled : Config :=
  { hostBits with exporters := HashMap.ofPairs [("edge-router-1", ⟨.V4 0x0A010101, 500⟩)] }

theorem resampled_refused (p : FlowProcessor) :
    ¬ ∃ c p', Config.load IpText.dotted (.ok resampled) = .ok c ∧ p.reloadConfig IpText.dotted c = .ok p' := by
  rintro ⟨c, p', hload, hp⟩
  obtain rfl := Except.ok.inj (Config.load_ok_iff.mp hload).1
  exact absurd (trunc_eq_of_reload hp) (by decide)

/-- The daemon of the README refuses the file. -/
theorem reload_untouched_iff_resampled : ∃ d, Daemon.start IpText.dotted (.ok Config.readme) = .ok d ∧
    let d' := d.reloadConfig IpText.dotted (.ok resampled)
    (((∀ address, d'.exporterRates.lookup address = d.exporterRates.lookup address) ∧
        d'.processor = d.processor ∧ d'.alertManager = d.alertManager) ↔
      ∀ c, Config.load IpText.dotted (.ok resampled) = .ok c → c.ExportersAre d.exporterRates) := by
  have hok : (Daemon.start IpText.dotted (.ok Config.readme)).isOk = true := by decide
  obtain ⟨d, hd⟩ := Fold.except_isOk.mp hok
  exact ⟨d, hd, reload_untouched_iff IpText.dotted d (.ok resampled) (resampled_refused d.processor)⟩

/-- It refuses the file, but takes over the sampling rate. -/
theorem reload_resamples : ∃ d, Daemon.start IpText.dotted (.ok Config.readme) = .ok d ∧
    (¬ ∃ c p, Config.load IpText.dotted (.ok resampled) = .ok c ∧
      d.processor.reloadConfig IpText.dotted c = .ok p) ∧
    d.exporterRates.lookup (.V4 0x0A010101) = some 1000 ∧
    (d.reloadConfig IpText.dotted (.ok resampled)).exporterRates.lookup (.V4 0x0A010101) = some 500 := by
  have hrates : (Daemon.start IpText.dotted (.ok Config.readme)).toOption.map (fun d =>
      (d.exporterRates.lookup (.V4 0x0A010101),
        (d.reloadConfig IpText.dotted (.ok resampled)).exporterRates.lookup (.V4 0x0A010101))) =
      some (some 1000, some 500) := by
    decide
  obtain ⟨d, hd, hlookup⟩ := Option.map_eq_some_iff.mp hrates
  obtain ⟨hold, hnew⟩ := Prod.mk.inj hlookup
  exact ⟨d, Fold.except_toOption.mp hd, resampled_refused d.processor, hold, hnew⟩

end NetAlert
