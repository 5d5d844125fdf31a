import Mathlib.Data.List.Basic
import ProxmoxBackup.Foundations.Except
import ProxmoxBackup.Foundations.Greatest
import ProxmoxBackup.Foundations.Runs

/-!
# The traffic control cache (`src/traffic_control_cache.rs`)

`update_config` replaces the cached rules by the rules of a configuration and keeps one pair of
rate limiters (incoming, outgoing) per rule name; `lookup_rate_limiter` picks, among the rules whose
timeframe matches the time, the one with the longest network prefix containing the peer, and
returns its name and limiters.

The limiter map is changed in place while the new rules are read, and the rules are only replaced
once all of them are read. An update that fails halfway (a limiter that cannot be created) leaves
the map pruned to the new configuration and partly updated, with the old rules still in place.

* `lookupRateLimiter_spec`: where every rule's limiters are the ones its rates ask for
  (`Consistent`), the lookup returns a rule that applies with the longest matching prefix and its
  limiters, or nothing when no rule applies.
* `updateConfig_eq_ok`, `run_of_accepted`: a successful update caches the rules of its
  configuration with their limiters, whatever updates came before it.
* `failed_update_breaks_lookup`: after a failed update the lookup misses a rule of the accepted
  configuration, or returns a limiter with the rate of the rejected one.
-/

namespace ProxmoxBackup.TrafficControl

/-! ## Addresses and networks -/

/-- `IpAddr`: an IPv4 address as 32 bits, an IPv6 address as 128 bits. The port of the peer's
`SocketAddr` is never read. -/
inductive IpAddr where
  | v4 (addr : BitVec 32)
  | v6 (addr : BitVec 128)
  deriving DecidableEq, Repr

/-- `cannonical_ip`: the IPv4-mapped IPv6 address `::ffff:a.b.c.d` is the IPv4 address `a.b.c.d`. -/
def cannonicalIp : IpAddr → IpAddr
  | .v4 addr => .v4 addr
  | .v6 addr => if addr >>> 32 = 0xffff then .v4 (addr.setWidth 32) else .v6 addr

/-- `cidr::IpInet`: an address and the length of its network prefix. -/
inductive IpInet where
  | v4 (address : BitVec 32) (networkLength : Nat)
  | v6 (address : BitVec 128) (networkLength : Nat)
  deriving DecidableEq, Repr

namespace IpInet

/-- `IpInet::network_length`. -/
def networkLength : IpInet → Nat
  | .v4 _ len => len
  | .v6 _ len => len

end IpInet

/-! ## Rules, limiters and the environment -/

/-- The parts of `proxmox_time`, `cidr` and the shared memory of `SharedRateLimiter` the cache
uses, over the types of broken-down times (`TmEditor`) and of daily durations (`DailyDuration`). -/
structure TrafficEnv (Tm Dur : Type) where
  /-- `TmEditor::with_epoch(now, utc)`. -/
  withEpoch : Int → Bool → Except String Tm
  /-- `DailyDuration::time_match_with_tm_editor`. -/
  timeMatch : Dur → Tm → Bool
  /-- `parse_daily_duration`. -/
  parseDailyDuration : String → Except String Dur
  /-- `str::parse::<IpInet>`. -/
  parseInet : String → Except String IpInet
  /-- `IpInet::contains`: whether the network holds the address. -/
  inetContains : IpInet → IpAddr → Bool
  /-- Whether `SharedRateLimiter::mmap_shmem` can map the shared memory of a limiter. -/
  mmapShmem : String → Nat → Nat → Except String Unit

variable {Tm Dur : Type} (env : TrafficEnv Tm Dur)

/-- `network_match_len`: the longest prefix among the networks that contain the address. -/
def networkMatchLen (networks : List IpInet) (ip : IpAddr) : Option Nat :=
  networks.foldl (fun matchLen cidr =>
    if env.inetContains cidr ip then
      let networkLength := cidr.networkLength
      match matchLen with
      | some len => if networkLength > len then some networkLength else matchLen
      | none => some networkLength
    else matchLen) none

/-- `timeframe_match`: an empty list matches every time. -/
def timeframeMatch (durationList : List Dur) (now : Tm) : Bool :=
  durationList.isEmpty || durationList.any fun duration => env.timeMatch duration now

/-- A rate limiter, by its rate and its bucket size. -/
structure RateLimit where
  rate : Nat
  burst : Nat
  deriving DecidableEq, Repr

/-- `RateLimitConfig`: the rates and bursts of a rule. -/
structure RateLimitConfig where
  rateIn : Option Nat
  burstIn : Option Nat
  rateOut : Option Nat
  burstOut : Option Nat
  deriving DecidableEq, Repr

/-- `TrafficControlRule`: the fields the cache reads. -/
structure TrafficControlRule where
  name : String
  limit : RateLimitConfig
  network : List String
  timeframe : Option (List String)
  deriving DecidableEq, Repr

/-- The rules of a traffic control `SectionConfigData`, in the order `convert_to_typed_array`
yields them. The section ids are the rule names and the keys of a map, so they are distinct. -/
structure TrafficControlConfig where
  rules : List TrafficControlRule
  nodup : (rules.map (·.name)).Nodup

/-- `ParsedTcRule`. -/
structure ParsedTcRule (Dur : Type) where
  config : TrafficControlRule
  networks : List IpInet
  timeframe : List Dur

/-- The incoming and outgoing limiter of a rule. -/
abbrev LimiterPair := Option RateLimit × Option RateLimit

/-- `TrafficControlCache`: the fields `update_config` and `lookup_rate_limiter` use. -/
structure TrafficControlCache (Dur : Type) where
  useSharedMemory : Bool
  rules : List (ParsedTcRule Dur)
  limiterMap : String → Option LimiterPair
  useUtc : Bool

/-- `TrafficControlCache::new`. -/
def TrafficControlCache.new : TrafficControlCache Dur :=
  ⟨true, [], fun _ => none, false⟩

/-- `create_limiter`. -/
def createLimiter (useSharedMemory : Bool) (name : String) (rate burst : Nat) :
    Except String RateLimit :=
  if useSharedMemory then do
    env.mmapShmem name rate burst
    pure ⟨rate, burst⟩
  else pure ⟨rate, burst⟩

/-- One direction of a rule's entry in `update_config`: an existing limiter takes the new rate
(`update_rate`) or is dropped, a missing one is created when the rule sets a rate; the burst
defaults to the rate. The incoming and outgoing sides are this with `.in`, `rate_in`, `burst_in`
and with `.out`, `rate_out`, `burst_out`. -/
def updateLimiter (useSharedMemory : Bool) (name : String) (current : Option RateLimit)
    (rate burst : Option Nat) : Except String (Option RateLimit) :=
  match current with
  | some _ =>
    match rate with
    | some rate => .ok (some ⟨rate, burst.getD rate⟩)
    | none => .ok none
  | none =>
    match rate with
    | some rate => (createLimiter env useSharedMemory name rate (burst.getD rate)).map some
    | none => .ok none

/-- The limiter map with one entry set. -/
def setEntry (m : String → Option LimiterPair) (key : String) (entry : LimiterPair) :
    String → Option LimiterPair :=
  fun k => if k = key then some entry else m k

/-- The loop over the rules of `update_config`. The entry of a rule is in the map from
`or_insert` on, and every change to it stays when a later step fails; the parsed rules are only
returned when all of them are read. -/
def updateRules (useSharedMemory : Bool) :
    (String → Option LimiterPair) → List TrafficControlRule →
      (String → Option LimiterPair) × Except String (List (ParsedTcRule Dur))
  | m, [] => (m, .ok [])
  | m, rule :: rules =>
    let entry := (m rule.name).getD (none, none)
    let limit := rule.limit
    match updateLimiter env useSharedMemory (rule.name ++ ".in") entry.1 limit.rateIn limit.burstIn with
    | .error e => (setEntry m rule.name entry, .error e)
    | .ok readLimiter =>
      match updateLimiter env useSharedMemory (rule.name ++ ".out") entry.2 limit.rateOut
          limit.burstOut with
      | .error e => (setEntry m rule.name (readLimiter, entry.2), .error e)
      | .ok writeLimiter =>
        let m := setEntry m rule.name (readLimiter, writeLimiter)
        match (rule.timeframe.getD []).mapM env.parseDailyDuration with
        | .error e => (m, .error e)
        | .ok timeframe =>
          -- a network that does not parse is logged and skipped
          let networks := rule.network.filterMap fun network => (env.parseInet network).toOption
          let (m, rest) := updateRules useSharedMemory m rules
          (m, rest.map (⟨rule, networks, timeframe⟩ :: ·))

/-- `limiter_map.retain(...)`: the limiters of names that are no section of the configuration are
dropped. -/
def retainSections (config : TrafficControlConfig) (m : String → Option LimiterPair) :
    String → Option LimiterPair :=
  fun key => if config.rules.any (·.name == key) then m key else none

/-- `TrafficControlCache::update_config` for the rules of a configuration, whose section ids are
the rule names: the limiters of other names are dropped first, and the rules are replaced only
when every rule is read. -/
def updateConfig (cache : TrafficControlCache Dur) (config : TrafficControlConfig) :
    TrafficControlCache Dur × Except String Unit :=
  match updateRules env cache.useSharedMemory (retainSections config cache.limiterMap) config.rules with
  | (m, .ok activeRules) => ({ cache with limiterMap := m, rules := activeRules }, .ok ())
  | (m, .error e) => ({ cache with limiterMap := m }, .error e)

/-- One rule of the scan in `lookup_rate_limiter`: a rule whose timeframe matches and one of whose
networks contains the peer replaces the rule found so far when its match is strictly longer. -/
def lookupStep (now : Tm) (peerIp : IpAddr) (lastRuleMatch : Option (ParsedTcRule Dur × Nat))
    (rule : ParsedTcRule Dur) : Option (ParsedTcRule Dur × Nat) :=
  if !timeframeMatch env rule.timeframe now then lastRuleMatch
  else
    match networkMatchLen env rule.networks peerIp with
    | some matchLen =>
      match lastRuleMatch with
      | none => some (rule, matchLen)
      | some (_, lastLen) => if matchLen > lastLen then some (rule, matchLen) else lastRuleMatch
    | none => lastRuleMatch

/-- `TrafficControlCache::lookup_rate_limiter`: among the rules whose timeframe matches, the
first one with the longest matching network prefix, and its limiters. -/
def lookupRateLimiter (cache : TrafficControlCache Dur) (peer : IpAddr) (now : Int) :
    String × Option RateLimit × Option RateLimit :=
  let peerIp := cannonicalIp peer
  match env.withEpoch now cache.useUtc with
  | .error _ => ("", none, none)
  | .ok now =>
    let lastRuleMatch := cache.rules.foldl (lookupStep env now peerIp) none
    match lastRuleMatch with
    | some (rule, _) =>
      match cache.limiterMap rule.config.name with
      | some (readLimiter, writeLimiter) => (rule.config.name, readLimiter, writeLimiter)
      | none => ("", none, none)
    | none => ("", none, none)

/-! ## The two scans for a longest prefix -/

/-- What a network offers to the scan of `network_match_len`: its length, when it contains the
address. -/
def networkOffer (ip : IpAddr) (cidr : IpInet) : Option (Unit × Nat) :=
  if env.inetContains cidr ip then some ((), cidr.networkLength) else none

/-- `network_match_len` is the scan for a greatest key over the networks' offers. -/
theorem networkMatchLen_eq (networks : List IpInet) (ip : IpAddr) :
    networkMatchLen env networks ip =
      (networks.foldl (Greatest.step (networkOffer env ip)) none).map Prod.snd := by
  suffices ∀ acc : Option (Unit × Nat), networks.foldl (fun matchLen cidr =>
      if env.inetContains cidr ip then
        let networkLength := cidr.networkLength
        match matchLen with
        | some len => if networkLength > len then some networkLength else matchLen
        | none => some networkLength
      else matchLen) (acc.map Prod.snd) =
        (networks.foldl (Greatest.step (networkOffer env ip)) acc).map Prod.snd from this none
  induction networks with
  | nil => simp
  | cons cidr networks ih =>
    intro acc
    rw [List.foldl_cons, List.foldl_cons, ← ih]
    congr 1
    -- one network: the kept length is the kept candidate's
    unfold Greatest.step networkOffer
    by_cases hc : env.inetContains cidr ip
    · rcases acc with _ | ⟨⟨⟩, len⟩
      · simp [hc]
      · by_cases hlt : len < cidr.networkLength <;> simp [hc, hlt]
    · simp [hc]

theorem networkMatchLen_eq_none {networks : List IpInet} {ip : IpAddr} :
    networkMatchLen env networks ip = none ↔ ∀ cidr ∈ networks, env.inetContains cidr ip = false := by
  rw [networkMatchLen_eq, Option.map_eq_none_iff, Greatest.foldl_step_eq_none]
  simp [networkOffer]

/-- The length `network_match_len` finds is the length of a network containing the address, and
no network containing it has a longer prefix. -/
theorem networkMatchLen_eq_some {networks : List IpInet} {ip : IpAddr} {len : Nat}
    (h : networkMatchLen env networks ip = some len) :
    (∃ cidr ∈ networks, env.inetContains cidr ip = true ∧ cidr.networkLength = len) ∧
      ∀ cidr ∈ networks, env.inetContains cidr ip = true → cidr.networkLength ≤ len := by
  rw [networkMatchLen_eq, Option.map_eq_some_iff] at h
  obtain ⟨⟨⟨⟩, len⟩, hfold, rfl⟩ := h
  obtain ⟨hmem, -, hle⟩ := Greatest.foldl_step_spec hfold
  refine ⟨?_, fun cidr hcidr hc => hle cidr hcidr ((), cidr.networkLength) (by simp [networkOffer, hc])⟩
  rcases hmem with hnone | ⟨cidr, hcidr, hoffer⟩
  · cases hnone
  · by_cases hc : env.inetContains cidr ip
    · simp only [networkOffer, hc, if_true, Option.some.injEq] at hoffer
      exact ⟨cidr, hcidr, hc, congrArg Prod.snd hoffer⟩
    · simp [networkOffer, hc] at hoffer

/-- A rule applies to a peer at a time: its timeframe matches the time and one of its networks
contains the peer. -/
def Applies (now : Tm) (ip : IpAddr) (rule : ParsedTcRule Dur) : Prop :=
  timeframeMatch env rule.timeframe now = true ∧
    ∃ cidr ∈ rule.networks, env.inetContains cidr ip = true

/-- What a rule offers to the scan of `lookup_rate_limiter`: itself and its match length, when its
timeframe matches. -/
def ruleOffer (now : Tm) (ip : IpAddr) (rule : ParsedTcRule Dur) : Option (ParsedTcRule Dur × Nat) :=
  if timeframeMatch env rule.timeframe now then (networkMatchLen env rule.networks ip).map (rule, ·)
  else none

/-- The scan over the rules in `lookup_rate_limiter` is the scan for a greatest key over the rules'
offers. -/
theorem lookupStep_eq (now : Tm) (ip : IpAddr) :
    lookupStep env now ip = Greatest.step (ruleOffer env now ip) := by
  funext lastRuleMatch rule
  unfold lookupStep Greatest.step ruleOffer
  cases htf : timeframeMatch env rule.timeframe now with
  | false => simp
  | true =>
    cases hlen : networkMatchLen env rule.networks ip with
    | none => simp
    | some matchLen =>
      rcases lastRuleMatch with _ | ⟨last, lastLen⟩
      · simp
      · by_cases hlt : lastLen < matchLen <;> simp [hlt]

/-- A rule offers its match length exactly when it applies. -/
theorem ruleOffer_eq_some {now : Tm} {ip : IpAddr} {rule r : ParsedTcRule Dur} {len : Nat}
    (h : ruleOffer env now ip rule = some (r, len)) :
    r = rule ∧ timeframeMatch env rule.timeframe now = true ∧
      networkMatchLen env rule.networks ip = some len := by
  unfold ruleOffer at h
  split at h
  · obtain ⟨len', hlen, heq⟩ := Option.map_eq_some_iff.1 h
    cases heq
    exact ⟨rfl, by assumption, hlen⟩
  · cases h

theorem ruleOffer_eq_none_iff {now : Tm} {ip : IpAddr} {rule : ParsedTcRule Dur} :
    ruleOffer env now ip rule = none ↔ ¬Applies env now ip rule := by
  unfold ruleOffer Applies
  cases htf : timeframeMatch env rule.timeframe now with
  | false => simp
  | true =>
    simp only [if_true, Option.map_eq_none_iff, networkMatchLen_eq_none, true_and, not_exists, not_and]
    exact ⟨fun h cidr hcidr hc => by simp [h cidr hcidr] at hc, fun h cidr hcidr => by simpa using h cidr hcidr⟩

/-! ## The lookup -/

/-- The limiters a rule's rates ask for: one for each rate the rule sets, with the burst
defaulting to the rate. -/
def limitersOf (rule : TrafficControlRule) : LimiterPair :=
  (rule.limit.rateIn.map fun rate => ⟨rate, rule.limit.burstIn.getD rate⟩,
    rule.limit.rateOut.map fun rate => ⟨rate, rule.limit.burstOut.getD rate⟩)

/-- Every cached rule has the limiters its rates ask for. -/
def Consistent (cache : TrafficControlCache Dur) : Prop :=
  ∀ rule ∈ cache.rules, cache.limiterMap rule.config.name = some (limitersOf rule.config)

theorem lookupRateLimiter_of_withEpoch {cache : TrafficControlCache Dur} {peer : IpAddr} {now : Int}
    {tm : Tm} (htm : env.withEpoch now cache.useUtc = .ok tm) :
    lookupRateLimiter env cache peer now =
      match cache.rules.foldl (Greatest.step (ruleOffer env tm (cannonicalIp peer))) none with
      | some (rule, _) =>
        match cache.limiterMap rule.config.name with
        | some (readLimiter, writeLimiter) => (rule.config.name, readLimiter, writeLimiter)
        | none => ("", none, none)
      | none => ("", none, none) := by
  rw [lookupRateLimiter, htm]
  dsimp only
  rw [lookupStep_eq]

/-- On a consistent cache, the lookup returns a rule that applies, through a network at least as
long as every matching network of every rule whose timeframe matches, together with the limiters
its rates ask for; or it returns nothing, and then no rule applies. -/
theorem lookupRateLimiter_spec {cache : TrafficControlCache Dur} (hc : Consistent cache)
    {peer : IpAddr} {now : Int} {tm : Tm} (htm : env.withEpoch now cache.useUtc = .ok tm) :
    (lookupRateLimiter env cache peer now = ("", none, none) ∧
        ∀ rule ∈ cache.rules, ¬Applies env tm (cannonicalIp peer) rule) ∨
      ∃ rule ∈ cache.rules, ∃ cidr ∈ rule.networks,
        timeframeMatch env rule.timeframe tm = true ∧ env.inetContains cidr (cannonicalIp peer) = true ∧
        (∀ rule' ∈ cache.rules, timeframeMatch env rule'.timeframe tm = true →
          ∀ cidr' ∈ rule'.networks, env.inetContains cidr' (cannonicalIp peer) = true →
            cidr'.networkLength ≤ cidr.networkLength) ∧
        lookupRateLimiter env cache peer now = (rule.config.name, limitersOf rule.config) := by
  rw [lookupRateLimiter_of_withEpoch env htm]
  cases hfold : cache.rules.foldl (Greatest.step (ruleOffer env tm (cannonicalIp peer))) none with
  | none =>
    refine Or.inl ⟨rfl, fun rule hrule => ?_⟩
    exact (ruleOffer_eq_none_iff env).1 ((Greatest.foldl_step_eq_none.1 hfold).2 rule hrule)
  | some found =>
    obtain ⟨r, len⟩ := found
    obtain ⟨hmem, -, hle⟩ := Greatest.foldl_step_spec hfold
    obtain ⟨rule, hrule, hoffer⟩ := hmem.resolve_left (by simp)
    obtain ⟨rfl, htf, hlen⟩ := ruleOffer_eq_some env hoffer
    obtain ⟨⟨cidr, hcidr, hcont, rfl⟩, -⟩ := networkMatchLen_eq_some env hlen
    refine Or.inr ⟨r, hrule, cidr, hcidr, htf, hcont, ?_, by simp [hc r hrule]⟩
    -- a matching network of another rule is bounded by that rule's match length, which the scan
    -- bounds by the found one
    intro rule' hrule' htf' cidr' hcidr' hcont'
    cases hlen' : networkMatchLen env rule'.networks (cannonicalIp peer) with
    | none => simp [(networkMatchLen_eq_none env).1 hlen' cidr' hcidr'] at hcont'
    | some len' =>
      have hoffer' : ruleOffer env tm (cannonicalIp peer) rule' = some (rule', len') := by
        simp [ruleOffer, htf', hlen']
      calc cidr'.networkLength ≤ len' := (networkMatchLen_eq_some env hlen').2 cidr' hcidr' hcont'
        _ ≤ cidr.networkLength := hle rule' hrule' (rule', len') hoffer'

/-! ## Updates -/

theorem createLimiter_eq_ok {useSharedMemory : Bool} {name : String} {rate burst : Nat}
    {limiter : RateLimit} (h : createLimiter env useSharedMemory name rate burst = .ok limiter) :
    limiter = ⟨rate, burst⟩ := by
  unfold createLimiter at h
  split at h
  · obtain ⟨u, -, h⟩ := Except.bind_eq_ok.1 h
    cases h
    rfl
  · cases h
    rfl

/-- A limiter that `update_config` keeps or creates has the rate the rule sets and the burst
defaulting to it, whatever limiter was there before. -/
theorem updateLimiter_eq_ok {useSharedMemory : Bool} {name : String} {current : Option RateLimit}
    {rate burst : Option Nat} {limiter : Option RateLimit}
    (h : updateLimiter env useSharedMemory name current rate burst = .ok limiter) :
    limiter = rate.map fun rate => ⟨rate, burst.getD rate⟩ := by
  unfold updateLimiter at h
  rcases current with _ | current <;> rcases rate with _ | rate
  · cases h
    rfl
  · obtain ⟨l, hl, rfl⟩ := Except.map_eq_ok.1 h
    rw [createLimiter_eq_ok env hl]
    rfl
  · cases h
    rfl
  · cases h
    rfl

/-- What a successful step of the loop of `update_config` did: both limiters of the rule were
updated, its timeframe parsed, and the rest of the rules read from the updated map. -/
theorem updateRules_cons_eq_ok {useSharedMemory : Bool} {m m' : String → Option LimiterPair}
    {rule : TrafficControlRule} {rules : List TrafficControlRule} {active : List (ParsedTcRule Dur)}
    (h : updateRules env useSharedMemory m (rule :: rules) = (m', .ok active)) :
    ∃ readLimiter writeLimiter timeframe rest,
      updateLimiter env useSharedMemory (rule.name ++ ".in") ((m rule.name).getD (none, none)).1
        rule.limit.rateIn rule.limit.burstIn = .ok readLimiter ∧
      updateLimiter env useSharedMemory (rule.name ++ ".out") ((m rule.name).getD (none, none)).2
        rule.limit.rateOut rule.limit.burstOut = .ok writeLimiter ∧
      (rule.timeframe.getD []).mapM env.parseDailyDuration = .ok timeframe ∧
      updateRules env useSharedMemory (setEntry m rule.name (readLimiter, writeLimiter)) rules =
        (m', .ok rest) ∧
      active = ⟨rule, rule.network.filterMap fun network => (env.parseInet network).toOption,
        timeframe⟩ :: rest := by
  simp only [updateRules] at h
  split at h
  · simp at h
  · rename_i readLimiter hread
    split at h
    · simp at h
    · rename_i writeLimiter hwrite
      split at h
      · simp at h
      · rename_i timeframe htf
        cases hrec : updateRules env useSharedMemory (setEntry m rule.name (readLimiter, writeLimiter)) rules with
        | mk m'' rest =>
          rw [hrec] at h
          cases rest with
          | error e => simp at h
          | ok rest =>
            simp only [Except.map, Prod.mk.injEq, Except.ok.injEq] at h
            obtain ⟨rfl, rfl⟩ := h
            exact ⟨readLimiter, writeLimiter, timeframe, rest, hread, hwrite, htf, hrec, rfl⟩

/-- When the loop of `update_config` reads every rule, it returns them in order, every rule's
entry holds the limiters its rates ask for, and the entries of other names are untouched. -/
theorem updateRules_eq_ok {useSharedMemory : Bool} :
    ∀ {m m' : String → Option LimiterPair} {rules : List TrafficControlRule}
      {active : List (ParsedTcRule Dur)}, (rules.map (·.name)).Nodup →
      updateRules env useSharedMemory m rules = (m', .ok active) →
      active.map (·.config) = rules ∧ (∀ rule ∈ rules, m' rule.name = some (limitersOf rule)) ∧
        ∀ key, key ∉ rules.map (·.name) → m' key = m key := by
  intro m m' rules
  induction rules generalizing m with
  | nil =>
    intro active _ h
    simp only [updateRules, Prod.mk.injEq, Except.ok.injEq] at h
    obtain ⟨rfl, rfl⟩ := h
    simp
  | cons rule rules ih =>
    intro active hnd h
    obtain ⟨readLimiter, writeLimiter, timeframe, rest, hread, hwrite, -, hrec, rfl⟩ :=
      updateRules_cons_eq_ok env h
    have hfresh : rule.name ∉ rules.map (·.name) := (List.nodup_cons.1 hnd).1
    obtain ⟨hrest, hrules, hother⟩ := ih (List.nodup_cons.1 hnd).2 hrec
    have hentry : m' rule.name = some (limitersOf rule) := by
      rw [hother rule.name hfresh, setEntry, if_pos rfl, updateLimiter_eq_ok env hread,
        updateLimiter_eq_ok env hwrite]
      rfl
    refine ⟨by simp [hrest], ?_, ?_⟩
    · rintro r (_ | ⟨_, hr⟩)
      · exact hentry
      · exact hrules r hr
    · intro key hkey
      simp only [List.map_cons, List.mem_cons, not_or] at hkey
      rw [hother key hkey.2, setEntry, if_neg hkey.1]

/-- A successful update caches the rules of its configuration, in order, each with the limiters
its rates ask for. -/
theorem updateConfig_eq_ok {cache : TrafficControlCache Dur} {config : TrafficControlConfig}
    (h : (updateConfig env cache config).2 = .ok ()) :
    (updateConfig env cache config).1.rules.map (·.config) = config.rules ∧
      Consistent (updateConfig env cache config).1 := by
  unfold updateConfig at h ⊢
  cases hup : updateRules env cache.useSharedMemory (retainSections config cache.limiterMap) config.rules with
  | mk m result =>
    cases result with
    | error e => simp [hup] at h
    | ok active =>
      obtain ⟨hrest, hentries, -⟩ := updateRules_eq_ok env config.nodup hup
      refine ⟨hrest, fun rule hrule => hentries rule.config ?_⟩
      rw [← hrest]
      exact List.mem_map_of_mem hrule

/-- Whatever updates came before, failed or not, once an update succeeds the cache holds the rules
of its configuration with their limiters, so that `lookupRateLimiter_spec` applies to it. -/
theorem run_of_accepted (configs : List TrafficControlConfig) (config : TrafficControlConfig)
    (h : (updateConfig env (Runs.run (updateConfig env) TrafficControlCache.new configs) config).2 = .ok ()) :
    (Runs.run (updateConfig env) TrafficControlCache.new (configs ++ [config])).rules.map (·.config) =
        config.rules ∧
      Consistent (Runs.run (updateConfig env) TrafficControlCache.new (configs ++ [config])) := by
  rw [Runs.run_concat]
  exact updateConfig_eq_ok env h

/-! ## A failed update -/

/-- An environment where the shared memory of the limiter `b.in` cannot be mapped, and where every
network reads as `0.0.0.0/0` and every time is representable. -/
def shmemFailsForB : TrafficEnv Unit Unit where
  withEpoch _ _ := .ok ()
  timeMatch _ _ := true
  parseDailyDuration _ := .ok ()
  parseInet _ := .ok (.v4 0 0)
  -- every network parses as 0.0.0.0/0, which holds every IPv4 address
  inetContains cidr addr := match cidr, addr with
    | .v4 _ 0, .v4 _ => true
    | _, _ => false
  mmapShmem name _ _ := if name = "b.in" then .error "unable to map shared memory" else .ok ()

/-- A rule `a` over every address with an incoming rate. -/
def ruleA (rate : Nat) : TrafficControlRule := ⟨"a", ⟨some rate, none, none, none⟩, ["0.0.0.0/0"], none⟩

/-- A rule `b` over every address with an incoming rate of 5. -/
def ruleB : TrafficControlRule := ⟨"b", ⟨some 5, none, none, none⟩, ["0.0.0.0/0"], none⟩

/-- The configuration update that is accepted, and the two that fail on the limiter of `b`. -/
def configA : TrafficControlConfig := ⟨[ruleA 10], by decide⟩

def configB : TrafficControlConfig := ⟨[ruleB], by decide⟩

def configAB : TrafficControlConfig := ⟨[ruleA 5, ruleB], by decide⟩

/-- After `configA` is accepted, a peer gets the limiter of rule `a`. An update to `configB` fails
and keeps the rules of `configA`, but it has already dropped the limiters of `a`: the lookup then
finds rule `a` and returns no name and no limiter. An update to `configAB` fails the same way
after giving the limiter of `a` the rate 5 of the rejected configuration, which the lookup then
returns. -/
theorem failed_update_breaks_lookup :
    (updateConfig shmemFailsForB .new configA).2 = .ok () ∧
    lookupRateLimiter shmemFailsForB (updateConfig shmemFailsForB .new configA).1 (.v4 0x0a000001) 0 =
      ("a", some ⟨10, 10⟩, none) ∧
    (updateConfig shmemFailsForB (updateConfig shmemFailsForB .new configA).1 configB).2 =
      .error "unable to map shared memory" ∧
    ((updateConfig shmemFailsForB (updateConfig shmemFailsForB .new configA).1 configB).1.rules.map
      (·.config)) = [ruleA 10] ∧
    lookupRateLimiter shmemFailsForB
        (updateConfig shmemFailsForB (updateConfig shmemFailsForB .new configA).1 configB).1
        (.v4 0x0a000001) 0 = ("", none, none) ∧
    (updateConfig shmemFailsForB (updateConfig shmemFailsForB .new configA).1 configAB).2 =
      .error "unable to map shared memory" ∧
    ((updateConfig shmemFailsForB (updateConfig shmemFailsForB .new configA).1 configAB).1.rules.map
      (·.config)) = [ruleA 10] ∧
    lookupRateLimiter shmemFailsForB
        (updateConfig shmemFailsForB (updateConfig shmemFailsForB .new configA).1 configAB).1
        (.v4 0x0a000001) 0 = ("a", some ⟨5, 5⟩, none) := by
  refine ⟨rfl, ?_, rfl, rfl, ?_, rfl, rfl, ?_⟩ <;> decide

end ProxmoxBackup.TrafficControl
