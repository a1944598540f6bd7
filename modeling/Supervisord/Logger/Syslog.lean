import Supervisord.Go.Split
import Supervisord.Logger.Emit

/-!
# Addresses of a remote syslog

The address in a destination of a log is to be `[protocol:]host[:port]`.  `parseSysLogConfig`
reads the addresses that are well formed as they are meant, but it looks neither at the range of the
port nor at the protocol in front of a host with a port, nor whether there is a host: it is
exact just where these are as they should be (`parseSysLogConfig_exact_iff`).
-/

namespace Supervisord.Logger

open Go

variable {config host protocol text a b c : Str} {port : Int} {r : Str × Str × Int}
  {fields : List Str}

/-! ## The format -/

/-- The protocols. -/
def Protocol (protocol : Str) : Prop := protocol = str "tcp" ∨ protocol = str "udp"

instance : DecidablePred Protocol := fun _ ↦ inferInstanceAs (Decidable (_ ∨ _))

/-- The port if there is none in the address. -/
def defaultPort (protocol : Str) : Int := if protocol = str "tcp" then 6514 else 514

def Host (host : Str) : Prop := host ≠ [] ∧ 58 ∉ host

instance : DecidablePred Host := fun _ ↦ inferInstanceAs (Decidable (_ ∧ _))

/-- A text for a port. -/
def Port (text : Str) (port : Int) : Prop := text.atoi = some port ∧ 0 ≤ port ∧ port ≤ 65535

instance (text : Str) (port : Int) : Decidable (Port text port) :=
  inferInstanceAs (Decidable (_ ∧ _ ∧ _))

/-- What the fields of an address stand for. -/
inductive Fields : List Str → Str × Str × Int → Prop where
  | host {host : Str} : Host host → Fields [host] (str "udp", host, 514)
  | protocolHost {protocol host : Str} : Protocol protocol → Host host →
      Fields [protocol, host] (protocol, host, defaultPort protocol)
  | hostPort {host text : Str} {port : Int} : ¬Protocol host → Host host → Port text port →
      Fields [host, text] (str "udp", host, port)
  | full {protocol host text : Str} {port : Int} : Protocol protocol → Host host →
      Port text port → Fields [protocol, host, text] (protocol, host, port)

/-- What an address stands for. -/
def Address (config : Str) (r : Str × Str × Int) : Prop :=
  ∃ fields, config = [58].intercalate fields ∧ Fields fields r

/-- The fields are as they should be, as far as the string is read at all. -/
def Checked : List Str → Prop
  | [host] => host ≠ []
  | [a, b] =>
    if Protocol a then b ≠ []
    else ∀ port ∈ b.atoi, a ≠ [] ∧ 0 ≤ port ∧ port ≤ 65535
  | [protocol, host, text] =>
    ∀ port ∈ text.atoi, Protocol protocol ∧ host ≠ [] ∧ 0 ≤ port ∧ port ≤ 65535
  | _ => True

/-! ## The fields -/

theorem Port.notMem (h : Port text port) : 58 ∉ text := by
  intro hm
  rcases Str.isDigit_of_atoi h.1 58 hm with h | h | h
  all_goals revert h; decide

theorem Protocol.notMem (h : Protocol protocol) : 58 ∉ protocol := by
  rcases h with rfl | rfl <;> decide

/-- The fields of a string are those that it is split into. -/
theorem address_iff : Address config r ↔ Fields (config.split 58) r := by
  constructor
  · rintro ⟨fields, rfl, h⟩
    have hfields : Str.split ([58].intercalate fields) 58 = fields := by
      refine Str.split_eq_iff.mpr ⟨?_, ?_, rfl⟩
      · cases h <;> exact List.cons_ne_nil _ _
      · cases h with
        | host hh => simpa using hh.2
        | protocolHost hp hh => simpa using ⟨hp.notMem, hh.2⟩
        | hostPort _ hh ht => simpa using ⟨hh.2, ht.notMem⟩
        | full hp hh ht => simpa using ⟨hp.notMem, hh.2, ht.notMem⟩
    rwa [hfields]
  · exact fun h ↦ ⟨_, (Str.split_eq_iff.mp rfl).2.2, h⟩

/-! ## What is read -/

section Parse

theorem parse_one (hs : config.split 58 = [a]) :
    parseSysLogConfig config = .ok (str "udp", a, 514) := by
  rw [parseSysLogConfig, hs]

theorem parse_protocolHost (hs : config.split 58 = [a, b]) (ha : Protocol a) :
    parseSysLogConfig config = .ok (a, b, defaultPort a) := by
  rw [parseSysLogConfig, hs]
  rcases ha with rfl | rfl <;> rfl

theorem parse_hostPort (hs : config.split 58 = [a, b]) (ha : ¬Protocol a) :
    (∀ port, b.atoi = some port → parseSysLogConfig config = .ok (str "udp", a, port)) ∧
      (b.atoi = none → parseSysLogConfig config = .error (str "invalid syntax")) := by
  obtain ⟨htcp, hudp⟩ := not_or.mp ha
  rw [parseSysLogConfig, hs]
  dsimp only
  rw [if_neg htcp, if_neg hudp]
  refine ⟨fun port hb ↦ ?_, fun hb ↦ ?_⟩ <;> rw [hb]

theorem parse_full (hs : config.split 58 = [a, b, c]) :
    (∀ port, c.atoi = some port → parseSysLogConfig config = .ok (a, b, port)) ∧
      (c.atoi = none → parseSysLogConfig config = .error (str "invalid syntax")) := by
  rw [parseSysLogConfig, hs]
  refine ⟨fun port hc ↦ ?_, fun hc ↦ ?_⟩
  all_goals
    dsimp only
    rw [hc]

end Parse

/-- What is accepted as one address is accepted exactly if it stands for this address. -/
theorem exact_of_ok {P : Prop} (h : parseSysLogConfig config = .ok r)
    (hr : ∀ r', Fields fields r' → r' = r) (hP : Fields fields r ↔ P) :
    (∀ r', parseSysLogConfig config = .ok r' ↔ Fields fields r') ↔ P := by
  rw [← hP]
  constructor
  · exact fun hall ↦ (hall r).mp h
  · intro hf r'
    rw [h]
    constructor
    · rintro ⟨⟩
      exact hf
    · exact fun h' ↦ congrArg _ (hr r' h').symm

theorem exact_of_error {err : Str} {P : Prop} (h : parseSysLogConfig config = .error err)
    (hr : ∀ r, ¬Fields fields r) (hP : P) :
    (∀ r, parseSysLogConfig config = .ok r ↔ Fields fields r) ↔ P := by
  refine iff_of_true (fun r ↦ iff_of_false ?_ (hr r)) hP
  rw [h]
  rintro ⟨⟩

theorem exact_two (hs : config.split 58 = [a, b]) (ha : 58 ∉ a) (hb : 58 ∉ b) :
    (∀ r, parseSysLogConfig config = .ok r ↔ Fields [a, b] r) ↔ Checked [a, b] := by
  rw [Checked]
  by_cases hp : Protocol a
  · rw [if_pos hp]
    refine exact_of_ok (parse_protocolHost hs hp) (fun r' h ↦ ?_) ⟨fun h ↦ ?_, fun h ↦ ?_⟩
    · cases h with
      | protocolHost => rfl
      | hostPort hn => exact absurd hp hn
    · cases h with
      | protocolHost _ hh => exact hh.1
      | hostPort hn => exact absurd hp hn
    · exact .protocolHost hp ⟨h, hb⟩
  · rw [if_neg hp]
    obtain ⟨hok, herr⟩ := parse_hostPort hs hp
    cases hport : b.atoi with
    | none =>
        refine exact_of_error (herr hport) (fun r h ↦ ?_) fun port h ↦ by cases h
        cases h with
        | protocolHost hn => exact hp hn
        | hostPort _ _ ht => exact absurd (hport.symm.trans ht.1) (Option.some_ne_none _).symm
    | some port =>
        refine exact_of_ok (hok port hport) (fun r' h ↦ ?_) ⟨fun h ↦ ?_, fun h ↦ ?_⟩
        · cases h with
          | protocolHost hn => exact absurd hn hp
          | hostPort _ _ ht => rw [Option.some.inj (ht.1.symm.trans hport)]
        · cases h with
          | protocolHost hn => exact absurd hn hp
          | hostPort _ hh ht =>
              rintro _ ⟨⟩
              exact ⟨hh.1, ht.2⟩
        · obtain ⟨hne, hrange⟩ := h port rfl
          exact .hostPort hp ⟨hne, ha⟩ ⟨hport, hrange⟩

theorem exact_three (hs : config.split 58 = [a, b, c]) (hb : 58 ∉ b) :
    (∀ r, parseSysLogConfig config = .ok r ↔ Fields [a, b, c] r) ↔ Checked [a, b, c] := by
  rw [Checked]
  obtain ⟨hok, herr⟩ := parse_full hs
  cases hport : c.atoi with
  | none =>
      refine exact_of_error (herr hport) (fun r h ↦ ?_) fun port h ↦ by cases h
      cases h with
      | full _ _ ht => exact absurd (hport.symm.trans ht.1) (Option.some_ne_none _).symm
  | some port =>
      refine exact_of_ok (hok port hport) (fun r' h ↦ ?_) ⟨fun h ↦ ?_, fun h ↦ ?_⟩
      · cases h with
        | full _ _ ht => rw [Option.some.inj (ht.1.symm.trans hport)]
      · cases h with
        | full hp hh ht =>
            rintro _ ⟨⟩
            exact ⟨hp, hh.1, ht.2⟩
      · obtain ⟨hp, hne, hrange⟩ := h port rfl
        exact .full hp ⟨hne, hb⟩ ⟨hport, hrange⟩

/-- **The format.**  Just the addresses are accepted, as what they stand for, if and only if the
fields are as they should be. -/
theorem parseSysLogConfig_exact_iff (config : Str) :
    (∀ r, parseSysLogConfig config = .ok r ↔ Address config r) ↔
      Checked (config.split 58) := by
  simp only [address_iff]
  obtain ⟨hne, hfree, -⟩ := Str.split_eq_iff.mp (rfl : config.split 58 = _)
  rcases hs : config.split 58 with _ | ⟨a, _ | ⟨b, _ | ⟨c, _ | ⟨d, fields⟩⟩⟩⟩
  · exact absurd hs hne
  · have ha : 58 ∉ a := hfree a (hs ▸ List.mem_cons_self)
    refine exact_of_ok (parse_one hs) (fun r' h ↦ ?_) ⟨fun h ↦ ?_, fun h ↦ .host ⟨h, ha⟩⟩
    · cases h
      rfl
    · cases h with
      | host hh => exact hh.1
  · rw [hs] at hfree
    exact exact_two hs (hfree a (by simp)) (hfree b (by simp))
  · rw [hs] at hfree
    exact exact_three hs (hfree b (by simp))
  · have herr : parseSysLogConfig config = .error (str "invalid format") := by
      rw [parseSysLogConfig, hs]
    refine exact_of_error herr (fun r h ↦ ?_) trivial
    cases h

/-- An address with another protocol is accepted, and it is none of those in the format. -/
theorem parseSysLogConfig_protocol :
    parseSysLogConfig (str "http:host:80") = .ok (str "http", str "host", 80) ∧
      ¬∀ config r, parseSysLogConfig config = .ok r ↔ Address config r := by
  have hparse : parseSysLogConfig (str "http:host:80") = .ok (str "http", str "host", 80) := rfl
  refine ⟨hparse, fun h ↦ ?_⟩
  have haddress := address_iff.mp ((h _ _).mp hparse)
  have hsplit : Str.split (str "http:host:80") 58 = [str "http", str "host", str "80"] := by decide
  rw [hsplit] at haddress
  cases haddress with
  | full hp => exact absurd hp (by decide)

end Supervisord.Logger
