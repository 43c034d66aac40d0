import LinuxC.Common.CString
import LinuxC.Common.Scl
import LinuxC.Gcl.Table

/-!
# The settings of the daemon (`sample/mc-daemon/mc_config.c`)

A table has a line for each field of `struct mc_config`: its name in the file, how its value is read,
and its default.  `mc_config_fn` gets the pairs of the file one by one and looks the key up; an item
that is set loses its default, and what still has one at the end gets it.
-/

namespace LinuxC.Mcd

open Text

/-! ## Names in a table -/

/-- The names of a table, for the search. -/
def nameTable (names : List (List UInt8)) : Gcl.Table :=
  fun i => ⟨(names[i.toNat]?).getD [], none, none⟩

/-- The loop of `mc_config_fn` and of `mc_guard_search`. -/
def nameSearch (names : List (List UInt8)) (name : List UInt8) : Option ℕ :=
  (Gcl.search (nameTable names) names.length name).map Int.toNat

/-- **The names are sorted**, so that the search finds what is there. -/
lemma nameSearch_some {names : List (List UInt8)} {name : List UInt8} {i : ℕ}
    (h : names.Pairwise fun a b => Uapi.strcmp a b < 0) :
    nameSearch names name = some i ↔ names[i]? = some name := by
  have hkey : ∀ (j : ℕ) (a : List UInt8), names[j]? = some a → (nameTable names j).key = a := by
    intro j a hj
    simp [nameTable, hj]
  have hascending : Gcl.Ascending (nameTable names) names.length := by
    intro j h0 hj
    obtain ⟨k, rfl⟩ := Int.eq_ofNat_of_zero_le h0
    have hlt : k + 1 < names.length := by omega
    have hk := hkey k _ (List.getElem?_eq_getElem (show k < names.length by omega))
    have hk' := hkey (k + 1) _ (List.getElem?_eq_getElem hlt)
    rw [Nat.cast_add, Nat.cast_one] at hk'
    rw [hk, hk']
    exact List.pairwise_iff_getElem.mp h k (k + 1) _ hlt (Nat.lt_succ_self k)
  rw [nameSearch, Option.map_eq_some_iff]
  constructor
  · rintro ⟨j, hj, rfl⟩
    obtain ⟨h0, hlt, hname⟩ := hascending.search_iff.mp hj
    obtain ⟨k, rfl⟩ := Int.eq_ofNat_of_zero_le h0
    have hk := List.getElem?_eq_getElem (show k < names.length by omega)
    rw [hkey k _ hk] at hname
    rw [← hname]
    exact hk
  · intro hname
    have hlt := (List.getElem?_eq_some_iff.mp hname).1
    exact ⟨i, hascending.search_iff.mpr ⟨by omega, by omega, hkey i name hname⟩,
      Int.toNat_natCast i⟩

/-! ## The code -/

def isDigit (c : UInt8) : Bool := 48 ≤ c && c ≤ 57

/-- The sign of a number, and what follows it. -/
def signOf : List UInt8 → Bool × List UInt8
  | [] => (false, [])
  | c :: s => if c = 45 then (true, s) else if c = 43 then (false, s) else (false, c :: s)

/-- `strtol` to the base 10: blanks, a sign and digits, within the range of `long`. -/
def strtol (value : List UInt8) : ℤ :=
  let (neg, s) := signOf (value.dropWhile isspace)
  let n : ℕ := (s.takeWhile isDigit).foldl (fun n c => 10 * n + (c.toNat - 48)) 0
  if neg then max (-2 ^ 63) (-(n : ℤ)) else min (2 ^ 63 - 1) n

/-- `atoi`: the low 32 bits. -/
def atoi (value : List UInt8) : ℤ := (strtol value).bmod (2 ^ 32)

/-- The fields of `struct mc_config`. -/
inductive ConfField
  | delayOnline
  | delayReboot
  | delayRestart
  | guardConf
  | guardDelay
  | guardInterval
  | lossMax
  | patrolInterval
  | probeInterval
  | watchdogInterval
  | watchdogTimeout
  | autoRebootTimeout
  deriving DecidableEq, Repr

/-- What a field holds. -/
inductive Setting
  | int (v : ℤ)
  | str (s : Option (List UInt8))
  deriving DecidableEq

abbrev McConfig := ConfField → Setting

/-- `__mc_config`, all zero. -/
def McConfig.zero : McConfig
  | .guardConf => .str none
  | _ => .int 0

/-- What `set_int` writes. -/
def setInt (value : List UInt8) : Setting := .int (atoi value)

/-- What `set_str` writes. -/
def setStr (value : List UInt8) : Setting := .str (some value)

/-- An item of `__mc_conf_items`. -/
structure ConfItem where
  name : List UInt8
  set : List UInt8 → Setting
  addr : ConfField
  dflt : Option (List UInt8)

def confItemI (name : String) (addr : ConfField) (dflt : String) : ConfItem :=
  ⟨asciiBytes name, setInt, addr, some (asciiBytes dflt)⟩

def confItemS (name : String) (addr : ConfField) (dflt : String) : ConfItem :=
  ⟨asciiBytes name, setStr, addr, some (asciiBytes dflt)⟩

def mcConfItems : List ConfItem :=
  [confItemI "auto_reboot_timeout" .autoRebootTimeout "604800",
    confItemI "delay_online" .delayOnline "3",
    confItemI "delay_reboot" .delayReboot "30",
    confItemI "delay_restart" .delayRestart "2",
    confItemS "guard_conf" .guardConf "/var/log/patrol.list",
    confItemI "guard_delay" .guardDelay "10",
    confItemI "guard_interval" .guardInterval "5",
    confItemI "loss_max" .lossMax "3",
    confItemI "patrol_interval" .patrolInterval "2",
    confItemI "probe_interval" .probeInterval "15",
    confItemI "watchdog_interval" .watchdogInterval "12",
    confItemI "watchdog_timeout" .watchdogTimeout "60"]

/-- The table and the settings. -/
structure Conf where
  items : List ConfItem
  conf : McConfig

/-- The setter of an item. -/
def ConfItem.write (item : ConfItem) (value : List UInt8) (conf : McConfig) : McConfig :=
  Function.update conf item.addr (item.set value)

def mcConfigFn (s : Conf) (pair : List UInt8 × List UInt8) : Conf :=
  match nameSearch (s.items.map ConfItem.name) pair.1 with
  | none => s
  | some m =>
      match s.items[m]? with
      | none => s
      | some item => ⟨s.items.set m { item with dflt := none }, item.write pair.2 s.conf⟩

def mcConfigDefault (s : Conf) : McConfig :=
  s.items.foldl
    (fun conf item => item.dflt.elim conf fun dflt => item.write dflt conf) s.conf

def mcConfigInit {Name : Type} (file : Option Name) (fopen : Name → Option (List UInt8)) :
    McConfig :=
  let pairs := (Scl.configParser Scl.mcChars file fopen).2
  mcConfigDefault (pairs.foldl mcConfigFn ⟨mcConfItems, McConfig.zero⟩)

/-! ## What the daemon runs with -/

/-- The value that a key gets last. -/
def lastValue (key : List UInt8) (pairs : List (List UInt8 × List UInt8)) : Option (List UInt8) :=
  pairs.foldl (fun v pair => if pair.1 = key then some pair.2 else v) none

/-- A table: it is sorted by the names, and no field is in it twice. -/
structure ConfTable (items : List ConfItem) : Prop where
  names : (items.map ConfItem.name).Pairwise fun a b => Uapi.strcmp a b < 0
  addrs : (items.map ConfItem.addr).Nodup

/-- An item behind some pairs. -/
def ConfItem.behind (pairs : List (List UInt8 × List UInt8)) (item : ConfItem) : ConfItem :=
  { item with dflt := if (lastValue item.name pairs).isSome then none else item.dflt }

/-- The table and the settings behind some pairs. -/
structure Behind (items : List ConfItem) (pairs : List (List UInt8 × List UInt8)) (s : Conf) :
    Prop where
  table : s.items = items.map (ConfItem.behind pairs)
  written : ∀ item ∈ items, ∀ v, lastValue item.name pairs = some v →
    s.conf item.addr = item.set v

section Proofs

variable {items : List ConfItem} {item : ConfItem} {s : Conf} {v : List UInt8}
  {pairs : List (List UInt8 × List UInt8)} {pair : List UInt8 × List UInt8}

lemma confTable_mcConfItems : ConfTable mcConfItems where
  names := by decide +kernel
  addrs := by decide +kernel

lemma dflt_mcConfItems (hitem : item ∈ mcConfItems) : ∃ d, item.dflt = some d := by
  have hall : ∀ item ∈ mcConfItems, item.dflt.isSome := by decide
  exact Option.isSome_iff_exists.mp (hall item hitem)

lemma lastValue_append (key : List UInt8) :
    lastValue key (pairs ++ [pair]) =
      if pair.1 = key then some pair.2 else lastValue key pairs := by
  rw [lastValue, List.foldl_append]
  rfl

lemma ConfTable.eq_of_name (h : ConfTable items) {i j : ℕ} {other : ConfItem}
    (hi : items[i]? = some item) (hj : items[j]? = some other) (hname : item.name = other.name) :
    i = j := by
  have hnodup : (items.map ConfItem.name).Nodup :=
    h.names.imp fun hlt heq => by
      rw [heq, Uapi.strcmp_self] at hlt
      exact lt_irrefl 0 hlt
  refine (List.getElem?_inj ?_ hnodup).mp ?_
  · rw [List.length_map]
    exact (List.getElem?_eq_some_iff.mp hi).1
  · rw [List.getElem?_map, List.getElem?_map, hi, hj, Option.map_some, Option.map_some, hname]

lemma ConfTable.eq_of_addr (h : ConfTable items) {other : ConfItem} (hi : item ∈ items)
    (ho : other ∈ items) (haddr : item.addr = other.addr) : item = other :=
  List.inj_on_of_nodup_map h.addrs hi ho haddr

/-- **One pair.** -/
lemma Behind.step (ht : ConfTable items) (h : Behind items pairs s) :
    Behind items (pairs ++ [pair]) (mcConfigFn s pair) := by
  have hnames : s.items.map ConfItem.name = items.map ConfItem.name := by
    rw [h.table, List.map_map]
    rfl
  have hsearch (i : ℕ) : nameSearch (s.items.map ConfItem.name) pair.1 = some i ↔
      ∃ item, items[i]? = some item ∧ item.name = pair.1 := by
    rw [hnames, nameSearch_some ht.names, List.getElem?_map, Option.map_eq_some_iff]
  unfold mcConfigFn
  cases hm : nameSearch (s.items.map ConfItem.name) pair.1 with
  | none =>
      -- no item has the key
      have hother : ∀ item ∈ items, lastValue item.name (pairs ++ [pair]) =
          lastValue item.name pairs := by
        intro item hitem
        rw [lastValue_append, if_neg]
        intro hname
        obtain ⟨i, hi⟩ := List.mem_iff_getElem?.mp hitem
        rw [(hsearch i).mpr ⟨item, hi, hname.symm⟩] at hm
        cases hm
      constructor
      · rw [h.table]
        refine List.map_congr_left fun item hitem => ?_
        rw [ConfItem.behind, ConfItem.behind, hother item hitem]
      · intro item hitem v hv
        rw [hother item hitem] at hv
        exact h.written item hitem v hv
  | some m =>
      obtain ⟨item, hitem, hname⟩ := (hsearch m).mp hm
      have hget : s.items[m]? = some (item.behind pairs) := by
        rw [h.table, List.getElem?_map, hitem, Option.map_some]
      simp only [hget]
      constructor
      · refine List.ext_getElem? fun j => ?_
        rw [List.getElem?_set, h.table, List.getElem?_map, List.getElem?_map, List.length_map]
        by_cases hj : m = j
        · subst hj
          rw [if_pos rfl, if_pos (List.getElem?_eq_some_iff.mp hitem).1, hitem, Option.map_some,
            ConfItem.behind, ConfItem.behind, lastValue_append, if_pos hname.symm]
          rfl
        · rw [if_neg hj]
          cases hother : items[j]? with
          | none => rfl
          | some other =>
              have hne : pair.1 ≠ other.name := fun hkey =>
                hj (ht.eq_of_name hitem hother (hname.trans hkey))
              rw [Option.map_some, Option.map_some, ConfItem.behind, ConfItem.behind,
                lastValue_append, if_neg hne]
      · intro other hother v hv
        have hmem := List.mem_of_getElem? hitem
        by_cases haddr : other.addr = item.addr
        · obtain rfl := ht.eq_of_addr hother hmem haddr
          rw [lastValue_append, if_pos hname.symm] at hv
          obtain rfl := Option.some.inj hv
          exact Function.update_self _ _ _
        · have hne : pair.1 ≠ other.name := by
            intro hkey
            obtain ⟨j, hj⟩ := List.mem_iff_getElem?.mp hother
            obtain rfl := ht.eq_of_name hitem hj (hname.trans hkey)
            rw [hitem] at hj
            exact haddr (congrArg ConfItem.addr (Option.some.inj hj)).symm
          rw [lastValue_append, if_neg hne] at hv
          exact (Function.update_of_ne haddr _ _).trans (h.written other hother v hv)

lemma behind_pairs (ht : ConfTable items) (conf : McConfig)
    (pairs : List (List UInt8 × List UInt8)) :
    Behind items pairs (pairs.foldl mcConfigFn ⟨items, conf⟩) := by
  induction pairs using List.reverseRecOn with
  | nil =>
      refine ⟨?_, fun item _ v hv => nomatch hv⟩
      exact (List.map_id _).symm
  | append_singleton pairs pair ih =>
      rw [List.foldl_append]
      exact ih.step ht

lemma foldl_default_of_not_mem {conf : McConfig} {addr : ConfField}
    (haddr : addr ∉ items.map ConfItem.addr) :
    items.foldl (fun conf item => item.dflt.elim conf fun dflt => item.write dflt conf) conf
        addr = conf addr := by
  induction items generalizing conf with
  | nil => rfl
  | cons item items ih =>
      rw [List.map_cons, List.mem_cons, not_or] at haddr
      rw [List.foldl_cons, ih haddr.2]
      cases item.dflt with
      | none => rfl
      | some d => exact Function.update_of_ne haddr.1 _ _

lemma foldl_default (conf : McConfig) (haddrs : (items.map ConfItem.addr).Nodup)
    (hi : item ∈ items) :
    items.foldl (fun conf item => item.dflt.elim conf fun dflt => item.write dflt conf) conf
        item.addr =
      item.dflt.elim (conf item.addr) item.set := by
  induction items generalizing conf with
  | nil => cases hi
  | cons other items ih =>
      rw [List.map_cons, List.nodup_cons] at haddrs
      rw [List.foldl_cons]
      rcases List.mem_cons.mp hi with rfl | hi
      · -- the items behind it have other fields
        rw [foldl_default_of_not_mem haddrs.1]
        cases item.dflt with
        | none => rfl
        | some d => exact Function.update_self _ _ _
      · rw [ih _ haddrs.2 hi]
        have hne : item.addr ≠ other.addr := fun heq =>
          haddrs.1 (heq ▸ List.mem_map_of_mem hi)
        cases other.dflt with
        | none => rfl
        | some d =>
            rw [Option.elim_some, ConfItem.write, Function.update_of_ne hne]

end Proofs

/-- **Every setting is what the file says last about it, or its default**: whatever the file has in
it, and if there is none. -/
theorem config_init_reads {Name : Type} (file : Option Name) (fopen : Name → Option (List UInt8))
    (item : ConfItem) (hitem : item ∈ mcConfItems) :
    (mcConfigInit file fopen) item.addr =
      item.set ((lastValue item.name (Scl.configParser Scl.mcChars file fopen).2).getD
        (item.dflt.getD [])) := by
  have ht := confTable_mcConfItems
  set pairs := (Scl.configParser Scl.mcChars file fopen).2
  have hbehind := behind_pairs ht McConfig.zero pairs
  have haddrs : ((mcConfItems.map (ConfItem.behind pairs)).map ConfItem.addr).Nodup := by
    rw [List.map_map]
    exact ht.addrs
  have hdefault := foldl_default (pairs.foldl mcConfigFn ⟨mcConfItems, .zero⟩).conf
    haddrs (List.mem_map_of_mem hitem)
  change mcConfigDefault _ item.addr = _
  rw [mcConfigDefault, hbehind.table]
  refine hdefault.trans ?_
  cases hv : lastValue item.name pairs with
  | none =>
      obtain ⟨d, hd⟩ : ∃ d, item.dflt = some d := dflt_mcConfItems hitem
      simp [ConfItem.behind, hv, hd]
  | some v => simp [ConfItem.behind, hv, hbehind.written item hitem v hv]

/-- The file sets a number twice, and a key that is none. -/
theorem config_init_reads_sample :
    let text := asciiBytes "delay_online = 7\nspeed=1 # unknown\ndelay_online = \" -9s\"\n"
    mcConfigInit (some ()) (fun _ => some text) .delayOnline = .int (-9) :=
  (config_init_reads (some ()) _ (confItemI "delay_online" .delayOnline "3") (by
    simp [mcConfItems])).trans (by decide +kernel)

end LinuxC.Mcd
