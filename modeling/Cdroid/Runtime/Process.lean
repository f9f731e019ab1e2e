import Cdroid.Runtime.Values
import Mathlib.Data.List.TakeWhile
import Mathlib.Data.Nat.Digits.Defs

/-! The start of a process: `Process::startViaZygote` writes the arguments to the
zygote's socket, `Zygote::handleZygoteClient` reads them back line by line, and
`AppRuntime::main` in the child tells options from activity arguments. -/

namespace Cdroid.Runtime

/-! ## C strings -/

/-- The bytes before the first NUL, which are what `strlen` counts. -/
def cString (bytes : List UInt8) : String8 := bytes.takeWhile fun b => b ≠ 0

/-- The index of the first place where `other` stands in `s`. -/
def strstr (other : String8) : String8 → Option Nat
  | [] => if other = [] then some 0 else none
  | b :: s => if other.isPrefixOf (b :: s) then some 0 else (strstr other s).map (· + 1)

/-- `String8::find` -/
def String8.find (s : String8) (other : String8) : Int :=
  if s.length = 0 then -1
  else match strstr other (cString s) with
    | some i => i
    | none => -1

/-- The conversion to `int`. -/
def toInt32 (n : Int) : Int := n.bmod (2 ^ 32)

/-- The digits of `%d`. -/
def decimal (n : Nat) : String8 :=
  if n = 0 then [48] else (Nat.digits 10 n).reverse.map fun d => (48 + d).toUInt8

/-- `String8::format("%d", n)` -/
def format (n : BitVec 32) : String8 :=
  if n.toInt < 0 then 45 :: decimal n.toInt.natAbs else decimal n.toInt.natAbs

/-! ## Process -/

namespace Process

/-- What the loop over `gids` appends. -/
def gidsArg : List (BitVec 32) → String8
  | [] => []
  | [g] => format g
  | g :: gids => format g ++ ascii "," ++ gidsArg gids

/-- The strings that `startViaZygote` hands to `startViaZygoteArgs`. -/
def zygoteArgs (niceName : String8) (uid gid : BitVec 32) (gids : List (BitVec 32))
    (extraArgs : List String8) : List String8 :=
  [ascii "--nice-name=" ++ niceName, ascii "--uid=" ++ format uid, ascii "--gid=" ++ format gid,
    ascii "--gids=" ++ gidsArg gids] ++ extraArgs

/-- The bytes that `startViaZygoteArgs` writes. -/
def startViaZygoteArgs (args : List String8) : List UInt8 :=
  args.flatMap fun arg => cString arg ++ [0] ++ [10]

def startViaZygote (niceName : String8) (uid gid : BitVec 32) (gids : List (BitVec 32))
    (extraArgs : List String8) : List UInt8 :=
  startViaZygoteArgs (zygoteArgs niceName uid gid gids extraArgs)

end Process

/-! ## Zygote -/

/-- The lines that repeated `getline` calls return, each with its newline. -/
def getlines : List UInt8 → List (List UInt8)
  | [] => []
  | b :: bytes =>
    if b = 10 then [b] :: getlines bytes
    else match getlines bytes with
      | [] => [[b]]
      | line :: lines => (b :: line) :: lines

/-- `Zygote::handleZygoteClient`, up to the fork: `args.push_back(String8(line))`. -/
def handleZygoteClient (bytes : List UInt8) : List String8 := (getlines bytes).map cString

/-! ## AppRuntime -/

/-- What the child has set up before `ActivityThread::main(activityArgs)`. -/
structure Child where
  process_name : String8
  activityArgs : List String8
  deriving DecidableEq

/-- `set_process_name`: the copy is made with an `int` length, `none` stands for a
copy past the end of what `malloc(len + 1)` gave. -/
def set_process_name (new_name : String8) : Option String8 :=
  if new_name.length + 1 < 2 ^ 31 then some new_name else none

/-- One round of the loop over `args`. The values of `--uid`, `--gid` and `--gids`
are looked at and dropped. -/
def AppRuntime.arg (child : Child) (arg : String8) : Option Child :=
  let pos := toInt32 (String8.find arg (ascii "="))
  if pos = -1 then some { child with activityArgs := child.activityArgs ++ [arg] }
  else if pos = 11 then do
    let name ← set_process_name (arg.drop (pos.toNat + 1))
    some { child with process_name := name }
  else some child

def AppRuntime.args : Child → List String8 → Option Child
  | child, [] => some child
  | child, arg :: rest => do AppRuntime.args (← AppRuntime.arg child arg) rest

/-- `AppRuntime::main`, up to `onStart`. -/
def AppRuntime.main (args : List String8) : Option Child :=
  AppRuntime.args ⟨ascii "unknown", []⟩ args

/-! ## The socket -/

/-- A string without NUL and newline. -/
def Plain (s : String8) : Prop := ∀ b ∈ s, b ≠ 0 ∧ b ≠ 10

instance (s : String8) : Decidable (Plain s) := List.decidableBAll _ s

theorem cString_of_plain {s : String8} (h : Plain s) : cString s = s :=
  List.takeWhile_eq_self_iff.mpr fun b hb => by simpa using (h b hb).1

theorem cString_line {s : String8} (h : Plain s) (rest : List UInt8) :
    cString (s ++ 0 :: rest) = s := by
  rw [cString, List.takeWhile_append_of_pos fun b hb => by simpa using (h b hb).1]
  simp

theorem getlines_line {s : List UInt8} (h : ∀ b ∈ s, b ≠ 10) (rest : List UInt8) :
    getlines (s ++ 10 :: rest) = (s ++ [10]) :: getlines rest := by
  induction s with
  | nil => simp [getlines]
  | cons b s ih =>
    rw [List.forall_mem_cons] at h
    rw [List.cons_append, getlines, if_neg h.1, ih h.2]
    rfl

/-- The zygote reads the strings that were written. -/
theorem handleZygoteClient_startViaZygoteArgs {args : List String8}
    (h : ∀ arg ∈ args, Plain arg) :
    handleZygoteClient (Process.startViaZygoteArgs args) = args := by
  induction args with
  | nil => rfl
  | cons arg args ih =>
    rw [List.forall_mem_cons] at h
    have hline : ∀ b ∈ arg ++ [0], b ≠ 10 := by
      intro b hb
      rcases List.mem_append.mp hb with hb | hb
      · exact (h.1 b hb).2
      · rw [List.mem_singleton.mp hb]
        decide
    have hcons : Process.startViaZygoteArgs (arg :: args) =
        (arg ++ [0]) ++ 10 :: Process.startViaZygoteArgs args := by
      simp [Process.startViaZygoteArgs, cString_of_plain h.1]
    rw [hcons, handleZygoteClient, getlines_line hline, List.map_cons, List.append_assoc]
    exact congrArg₂ List.cons (cString_line h.1 [10]) (ih h.2)

theorem plain_append {s t : String8} (hs : Plain s) (ht : Plain t) : Plain (s ++ t) := by
  intro b hb
  rcases List.mem_append.mp hb with hb | hb
  · exact hs b hb
  · exact ht b hb

theorem plain_decimal (n : Nat) : Plain (decimal n) := by
  intro b hb
  unfold decimal at hb
  split at hb
  · rw [List.mem_singleton.mp hb]
    decide
  · obtain ⟨d, hd, rfl⟩ := List.mem_map.mp hb
    have hlt : d < 10 := Nat.digits_lt_base (by decide) (List.mem_reverse.mp hd)
    clear hd hb
    revert d
    decide

theorem plain_format (n : BitVec 32) : Plain (format n) := by
  unfold format
  split
  · exact plain_append (by decide : Plain [45]) (plain_decimal _)
  · exact plain_decimal _

theorem plain_gidsArg (gids : List (BitVec 32)) : Plain (Process.gidsArg gids) := by
  induction gids with
  | nil => exact nofun
  | cons g gids ih =>
    cases gids with
    | nil => exact plain_format g
    | cons g' gids =>
      exact plain_append (plain_append (plain_format g) (by decide)) ih

theorem plain_zygoteArgs {niceName : String8} {extraArgs : List String8}
    (hname : Plain niceName) (hargs : ∀ arg ∈ extraArgs, Plain arg)
    (uid gid : BitVec 32) (gids : List (BitVec 32)) :
    ∀ arg ∈ Process.zygoteArgs niceName uid gid gids extraArgs, Plain arg := by
  have hoption : ∀ s ∈ [ascii "--nice-name=", ascii "--uid=", ascii "--gid=", ascii "--gids="],
      Plain s := by
    decide
  simp only [List.forall_mem_cons, List.not_mem_nil, false_implies, implies_true,
    and_true] at hoption
  obtain ⟨hn, hu, hg, hgs⟩ := hoption
  simp only [Process.zygoteArgs, List.cons_append, List.nil_append, List.forall_mem_cons]
  exact ⟨plain_append hn hname, plain_append hu (plain_format _), plain_append hg (plain_format _),
    plain_append hgs (plain_gidsArg _), hargs⟩

/-! ## Options and activity arguments -/

/-- The argument has no `=`, or the first one at an index that is -1 as an `int`. -/
def IsActivityArg (arg : String8) : Prop :=
  ∀ i, arg.findIdx? (fun b => b = 61) = some i → i % 2 ^ 32 = 2 ^ 32 - 1

theorem strstr_assign (s : String8) :
    strstr (ascii "=") s = s.findIdx? fun b => b = 61 := by
  induction s with
  | nil => rfl
  | cons b s ih =>
    have hassign : ascii "=" = [61] := by decide
    rw [strstr, ih, List.findIdx?_cons, hassign]
    simp only [List.isPrefixOf, Bool.and_true, beq_iff_eq, decide_eq_true_eq, eq_comm (a := b)]
    
theorem find_assign {arg : String8} (h : Plain arg) :
    String8.find arg (ascii "=") = match arg.findIdx? fun b => b = 61 with
      | some i => (i : Int)
      | none => -1 := by
  rw [String8.find, cString_of_plain h, strstr_assign]
  split
  · next hlen => rw [List.length_eq_zero_iff.mp hlen]; rfl
  · rfl

theorem toInt32_eq_neg_one (i : Nat) : toInt32 i = -1 ↔ i % 2 ^ 32 = 2 ^ 32 - 1 := by
  unfold toInt32
  rw [Int.bmod_def]
  split <;> omega

theorem isActivityArg_iff {arg : String8} (h : Plain arg) :
    toInt32 (String8.find arg (ascii "=")) = -1 ↔ IsActivityArg arg := by
  rw [find_assign h]
  unfold IsActivityArg
  cases arg.findIdx? fun b => b = 61 with
  | none => simp [toInt32]
  | some i => simpa using toInt32_eq_neg_one i

namespace AppRuntime

/-- Some of the arguments are passed on, and nothing else. -/
theorem args_activityArgs {as : List String8} {child child' : Child}
    (h : args child as = some child') :
    child'.activityArgs = child.activityArgs ++
      as.filter fun a => toInt32 (String8.find a (ascii "=")) = -1 := by
  induction as generalizing child with
  | nil =>
    cases h
    simp
  | cons a as ih =>
    simp only [args, arg, Option.bind_eq_bind, Option.bind_eq_some_iff] at h
    obtain ⟨next, hnext, hrest⟩ := h
    rw [ih hrest, List.filter_cons]
    split at hnext
    · next hpos =>
      cases hnext
      simp [hpos]
    · next hpos =>
      rw [if_neg (by simpa using hpos)]
      split at hnext
      · obtain ⟨name, -, hname⟩ := Option.bind_eq_some_iff.mp hnext
        cases hname
        rfl
      · cases hnext
        rfl

theorem args_of_isActivityArg {as : List String8} (hplain : ∀ a ∈ as, Plain a)
    (h : ∀ a ∈ as, IsActivityArg a) (child : Child) :
    args child as = some { child with activityArgs := child.activityArgs ++ as } := by
  induction as generalizing child with
  | nil => simp [args]
  | cons a as ih =>
    rw [List.forall_mem_cons] at hplain h
    simp only [args, arg, if_pos ((isActivityArg_iff hplain.1).mpr h.1), Option.bind_eq_bind,
      Option.bind_some, ih hplain.2 h.2, List.append_assoc, List.cons_append, List.nil_append]

/-- The first option has its `=` at 11, the other three at 5 and 6. -/
theorem main_zygoteArgs {niceName : String8} (hname : Plain niceName) (uid gid : BitVec 32)
    (gids : List (BitVec 32)) (extraArgs : List String8) :
    main (Process.zygoteArgs niceName uid gid gids extraArgs) =
      (set_process_name niceName).bind fun name => args ⟨name, []⟩ extraArgs := by
  have hfind : ∀ (option : String8) (i : Nat) (value : String8), Plain option → Plain value →
      option.findIdx? (fun b => b = 61) = some i →
      String8.find (option ++ value) (ascii "=") = i := by
    intro option i value ho hv hi
    rw [find_assign (plain_append ho hv), List.findIdx?_append, hi]
    rfl
  have h1 := hfind (ascii "--nice-name=") 11 niceName (by decide) hname (by decide)
  have h2 := hfind (ascii "--uid=") 5 (format uid) (by decide) (plain_format _)
    (by decide)
  have h3 := hfind (ascii "--gid=") 5 (format gid) (by decide) (plain_format _)
    (by decide)
  have h4 := hfind (ascii "--gids=") 6 (Process.gidsArg gids) (by decide)
    (plain_gidsArg _) (by decide)
  have hdrop : (ascii "--nice-name=" ++ niceName).drop 12 = niceName := rfl
  simp only [main, Process.zygoteArgs, List.cons_append, List.nil_append, args, arg, h1, h2, h3, h4]
  cases hset : set_process_name niceName with
  | none => simp [toInt32, hdrop, hset]
  | some name => simp [toInt32, hdrop, hset]

end AppRuntime

/-- **Start arguments.** The child gets the nice name as its process name and the extra
arguments as its activity arguments if and only if the name fits the copy that
`set_process_name` makes and every extra argument is taken for an activity argument. -/
theorem child_eq_iff (niceName : String8) (uid gid : BitVec 32) (gids : List (BitVec 32))
    (extraArgs : List String8) (hname : Plain niceName) (hargs : ∀ arg ∈ extraArgs, Plain arg) :
    AppRuntime.main (handleZygoteClient
      (Process.startViaZygote niceName uid gid gids extraArgs)) = some ⟨niceName, extraArgs⟩ ↔
    niceName.length + 1 < 2 ^ 31 ∧ ∀ arg ∈ extraArgs, IsActivityArg arg := by
  rw [Process.startViaZygote, handleZygoteClient_startViaZygoteArgs
    (plain_zygoteArgs hname hargs uid gid gids), AppRuntime.main_zygoteArgs hname]
  unfold set_process_name
  split
  · next hlen =>
    rw [Option.bind_some]
    constructor
    · intro h
      have hkept := AppRuntime.args_activityArgs h
      rw [List.nil_append, eq_comm, List.filter_eq_self] at hkept
      exact ⟨hlen, fun arg harg =>
        (isActivityArg_iff (hargs arg harg)).mp (by simpa using hkept arg harg)⟩
    · rintro ⟨-, h⟩
      exact AppRuntime.args_of_isActivityArg hargs h _
  · next hlen =>
    constructor
    · exact nofun
    · exact fun h => absurd h.1 hlen

theorem child_eq_iff_plain :
    AppRuntime.main (handleZygoteClient
      (Process.startViaZygote (ascii "cdroid.launcher") 0 0 [1, 2] [ascii "main"])) =
        some ⟨ascii "cdroid.launcher", [ascii "main"]⟩ ↔
    (ascii "cdroid.launcher").length + 1 < 2 ^ 31 ∧
      ∀ arg ∈ [ascii "main"], IsActivityArg arg :=
  child_eq_iff _ 0 0 _ _ (by decide) (by decide)

/-- An argument `a=b` is taken for an option and dropped. -/
theorem child_loses_argument :
    ¬ ∀ (niceName : String8) (uid gid : BitVec 32) (gids : List (BitVec 32))
      (extraArgs : List String8), Plain niceName → (∀ arg ∈ extraArgs, Plain arg) →
      AppRuntime.main (handleZygoteClient
        (Process.startViaZygote niceName uid gid gids extraArgs)) =
          some ⟨niceName, extraArgs⟩ := by
  intro h
  have := h (ascii "app") 0 0 [] [ascii "a=b"] (by decide) (by decide)
  revert this
  decide +kernel

end Cdroid.Runtime
