import Bio.File
import Mathlib.Data.List.Lex
import Mathlib.Data.Prod.Lex

/-!
# Network addresses

`bio_net_address_compare` of `src/net.c`, and `bio_translate_address` of `src/linux/net.c`,
`src/freebsd/net.c` and `src/windows/net.c`.

* The name of a `BIO_ADDR_NAMED` address are its first `len` bytes.
* `memcmp` returns the difference of the first two bytes that differ. The C library promises its sign.
* A `SockAddr` holds the bytes up to `addr_len`.

Results: `addressCompare_order` and `translated_fits`.
-/

namespace Bio

/-- `bio_addr_t`. -/
inductive Addr
  | ipv4 (bytes : Vector UInt8 4)
  | ipv6 (bytes : Vector UInt8 16)
  | named (name : { bytes : List UInt8 // bytes.length ≤ 256 })
deriving DecidableEq

namespace Addr

/-- `bio_addr_type_t`, as a number. -/
def type : Addr → Nat
  | .ipv4 _ => 0
  | .ipv6 _ => 1
  | .named _ => 2

/-- The bytes that make a difference. -/
def bytes : Addr → List UInt8
  | .ipv4 bytes => bytes.toList
  | .ipv6 bytes => bytes.toList
  | .named name => name.1

/-- `BIO_ADDR_IPV4_ANY`. -/
def ipv4Any : Addr := .ipv4 (.replicate 4 0)

/-- `BIO_ADDR_IPV6_ANY`. -/
def ipv6Any : Addr := .ipv6 (.replicate 16 0)

/-- An address of the same type with all of its bytes zero. -/
def zeroed : Addr → Addr
  | .ipv4 _ => ipv4Any
  | .ipv6 _ => ipv6Any
  | .named _ => .named ⟨[], Nat.zero_le _⟩

end Addr

/-- `memcmp` over two arrays of the same length. -/
def memcmp : List UInt8 → List UInt8 → Int
  | x :: xs, y :: ys => if x = y then memcmp xs ys else x.toNat - y.toNat
  | _, _ => 0

/-- `bio_net_address_compare`. -/
def addressCompare (lhs rhs : Addr) : Int :=
  match lhs, rhs with
  | .ipv4 l, .ipv4 r => memcmp l.toList r.toList
  | .ipv6 l, .ipv6 r => memcmp l.toList r.toList
  | .named l, .named r =>
    let lhsLen := l.1.length
    let rhsLen := r.1.length
    let minLen := if lhsLen < rhsLen then lhsLen else rhsLen
    let cmp := memcmp (l.1.take minLen) (r.1.take minLen)
    if cmp ≠ 0 then cmp else lhsLen - rhsLen
  | _, _ => lhs.type - rhs.type

/-! ## Translation -/

/-- The addresses of the operating systems: the port is in network byte order. -/
inductive SockAddr
  | inet (port : UInt8 × UInt8) (addr : Vector UInt8 4)
  | inet6 (port : UInt8 × UInt8) (addr : Vector UInt8 16)
  | unix (path : List UInt8)
  | pipe (name : List UInt8)
deriving DecidableEq

/-- `bio_addr_translation_result_t`. -/
structure AddrTranslation where
  addr : SockAddr
  addrLen : Nat
  shouldBind : Bool
deriving DecidableEq

/-- `htons`, as the bytes in memory. -/
def htons (port : UInt16) : UInt8 × UInt8 :=
  (UInt8.ofNat (port.toNat / 256), UInt8.ofNat port.toNat)

/-- `BIO_PORT_ANY`. -/
def portAny : UInt16 := 0

/-- `bio_translate_address` for an IPv4 address. The result is zeroed before. -/
def translateIpv4 (bytes : Vector UInt8 4) (port : UInt16) : AddrTranslation :=
  if addressCompare (.ipv4 bytes) .ipv4Any ≠ 0 ∨ port ≠ portAny then
    { addr := .inet (htons port) bytes, addrLen := 16, shouldBind := true }
  else { addr := .inet (0, 0) (.replicate 4 0), addrLen := 16, shouldBind := false }

/-- `bio_translate_address` for an IPv6 address. -/
def translateIpv6 (bytes : Vector UInt8 16) (port : UInt16) : AddrTranslation :=
  if addressCompare (.ipv6 bytes) .ipv6Any ≠ 0 ∨ port ≠ portAny then
    { addr := .inet6 (htons port) bytes, addrLen := 28, shouldBind := true }
  else { addr := .inet6 (0, 0) (.replicate 16 0), addrLen := 28, shouldBind := false }

/-- `bio_translate_address`. The platforms differ in what they make of a name. -/
def translateWith (translateName : List UInt8 → Except FileError AddrTranslation) (addr : Addr)
    (port : UInt16) : Except FileError AddrTranslation :=
  match addr with
  | .ipv4 bytes => .ok (translateIpv4 bytes port)
  | .ipv6 bytes => .ok (translateIpv6 bytes port)
  | .named name => translateName name.1

/-- `'@'`, which marks the name of an abstract socket. -/
def abstractMark : UInt8 := 64

/-- The names of `src/linux/net.c`. `sun_path` has 108 bytes at an offset of 2. -/
def linuxName : List UInt8 → Except FileError AddrTranslation
  | [] => .ok { addr := .unix [], addrLen := 0, shouldBind := false }
  | first :: rest =>
    if (first :: rest).length < 108 then
      .ok { addr := .unix ((if first = abstractMark then 0 else first) :: rest)
            addrLen := 2 + (first :: rest).length, shouldBind := true }
    else .error (.core .invalidArgument)

/-- `ENOTSUP` on FreeBSD. -/
def freebsdEnotsup : Int := 45

/-- The names of `src/freebsd/net.c`, where `sun_path` has 104 bytes. -/
def freebsdName : List UInt8 → Except FileError AddrTranslation
  | [] => .ok { addr := .unix [], addrLen := 0, shouldBind := false }
  | first :: rest =>
    if (first :: rest).length < 104 then
      if first = abstractMark then .error (.errno freebsdEnotsup)
      else .ok { addr := .unix (first :: rest), addrLen := 2 + (first :: rest).length
                 shouldBind := true }
    else .error (.core .invalidArgument)

/-- `BIO_PIPE_PREFIX`, without its terminator. -/
def pipePrefix : List UInt8 := [92, 92, 46, 92, 112, 105, 112, 101, 92]

/-- A slash becomes a backslash. -/
def backslash (ch : UInt8) : UInt8 := if ch = 47 then 92 else ch

/-- The names of `src/windows/net.c`, without the terminator. `name` has 257 bytes. -/
def windowsName : List UInt8 → Except FileError AddrTranslation
  | [] => .ok { addr := .pipe [], addrLen := 0, shouldBind := false }
  | first :: rest =>
    if (first :: rest).length + (pipePrefix.length + 1) ≤ 257 then
      let name := pipePrefix ++
        (if first = abstractMark ∨ first = 0 then rest else first :: rest).map backslash
      .ok { addr := .pipe name, addrLen := name.length, shouldBind := true }
    else .error (.core .invalidArgument)

/-- `bio_translate_address` of the three platforms. -/
def linuxTranslateAddress : Addr → UInt16 → Except FileError AddrTranslation :=
  translateWith linuxName

def freebsdTranslateAddress : Addr → UInt16 → Except FileError AddrTranslation :=
  translateWith freebsdName

def windowsTranslateAddress : Addr → UInt16 → Except FileError AddrTranslation :=
  translateWith windowsName

/-! ## The order of the addresses -/

/-- The order that `memcmp` follows. -/
def lexKey (bytes : List UInt8) : List Nat := bytes.map UInt8.toNat

theorem lexKey_injective : Function.Injective lexKey :=
  List.map_injective_iff.mpr fun _ _ h => UInt8.toNat_inj.mp h

/-- A comparison by its sign. -/
structure Follows {α : Type*} [LinearOrder α] (cmp : Int) (x y : α) : Prop where
  neg : cmp < 0 ↔ x < y
  zero : cmp = 0 ↔ x = y

theorem Follows.pos {α : Type*} [LinearOrder α] {cmp : Int} {x y : α} (h : Follows cmp x y) :
    0 < cmp ↔ y < x := by
  rw [← not_le, ← not_le, le_iff_lt_or_eq, le_iff_lt_or_eq, h.neg, h.zero]

/-- The first bytes that differ decide. -/
theorem differing_follow {x y : UInt8} (hne : x ≠ y) (xs ys : List UInt8) :
    Follows ((x.toNat : Int) - y.toNat) (lexKey (x :: xs)) (lexKey (y :: ys)) := by
  have hne' : x.toNat ≠ y.toNat := fun h => hne (UInt8.toNat_inj.mp h)
  simp only [lexKey, List.map_cons]
  refine ⟨?_, ?_⟩
  · rw [List.cons_lt_cons_iff, or_iff_left fun h => hne' h.1]
    omega
  · rw [List.cons.injEq]
    exact iff_of_false (by omega) fun h => hne' h.1

theorem memcmp_follows {xs ys : List UInt8} (hlen : xs.length = ys.length) :
    Follows (memcmp xs ys) (lexKey xs) (lexKey ys) := by
  induction xs generalizing ys with
  | nil =>
    rw [List.length_eq_zero_iff.mp hlen.symm]
    exact ⟨by simp [memcmp], by simp [memcmp]⟩
  | cons x xs ih =>
    cases ys with
    | nil => cases hlen
    | cons y ys =>
      obtain ⟨hneg, hzero⟩ := ih (Nat.succ.inj hlen)
      rw [memcmp]
      split
      · next heq =>
        subst heq
        exact ⟨hneg.trans (by simp [lexKey]), hzero.trans (by simp [lexKey])⟩
      · next hne => exact differing_follow hne xs ys

/-- The comparison of two names: the common length first, then the lengths. -/
theorem names_follow (l r : List UInt8) :
    Follows (if memcmp (l.take (min l.length r.length)) (r.take (min l.length r.length)) ≠ 0 then
        memcmp (l.take (min l.length r.length)) (r.take (min l.length r.length))
      else (l.length : Int) - r.length) (lexKey l) (lexKey r) := by
  induction l generalizing r with
  | nil =>
    cases r with
    | nil => exact ⟨by simp [memcmp], by simp [memcmp]⟩
    | cons y r =>
      refine ⟨?_, ?_⟩
      · simp [memcmp, lexKey]
        omega
      · simp [memcmp, lexKey]
        omega
  | cons x l ih =>
    cases r with
    | nil =>
      refine ⟨?_, ?_⟩
      · simp [memcmp, lexKey]
        omega
      · simp [memcmp, lexKey]
        omega
    | cons y r =>
      simp only [List.length_cons, Nat.add_min_add_right, List.take_succ_cons, memcmp]
      split
      · next heq =>
        subst heq
        obtain ⟨hneg, hzero⟩ := ih r
        have hdiff : ((l.length + 1 : Nat) : Int) - ((r.length + 1 : Nat) : Int) =
            l.length - r.length := by omega
        rw [hdiff]
        exact ⟨hneg.trans (by simp [lexKey]), hzero.trans (by simp [lexKey])⟩
      · next hne =>
        have hdiff : (x.toNat : Int) - y.toNat ≠ 0 := fun h =>
          hne (UInt8.toNat_inj.mp (Int.ofNat_inj.mp (Int.sub_eq_zero.mp h)))
        rw [if_pos hdiff]
        exact differing_follow hne l r

/-- Addresses are ordered by their types, then by their bytes. -/
def Addr.key (addr : Addr) : ℕ ×ₗ List ℕ := toLex (addr.type, lexKey addr.bytes)

theorem Addr.key_injective : Function.Injective Addr.key := by
  intro a b h
  have htype : a.type = b.type := congrArg Prod.fst (toLex_inj.mp h)
  have hbytes : a.bytes = b.bytes := lexKey_injective (congrArg Prod.snd (toLex_inj.mp h))
  cases a with
  | ipv4 l =>
    cases b with
    | ipv4 r => exact congrArg _ (Vector.toList_inj.mp hbytes)
    | ipv6 _ | named _ => cases htype
  | ipv6 l =>
    cases b with
    | ipv6 r => exact congrArg _ (Vector.toList_inj.mp hbytes)
    | ipv4 _ | named _ => cases htype
  | named l =>
    cases b with
    | named r => exact congrArg _ (Subtype.ext hbytes)
    | ipv4 _ | ipv6 _ => cases htype

/-- A comparison within one type. -/
theorem follows_of_bytes {a b : Addr} {cmp : Int} (htype : a.type = b.type)
    (h : Follows cmp (lexKey a.bytes) (lexKey b.bytes)) : Follows cmp a.key b.key := by
  refine ⟨h.neg.trans ?_, h.zero.trans ?_⟩
  · simp [Addr.key, Prod.Lex.toLex_lt_toLex, htype]
  · simp [Addr.key, htype]

/-- A comparison of different types. -/
theorem follows_of_type {a b : Addr} (htype : a.type ≠ b.type) :
    Follows ((a.type : Int) - b.type) a.key b.key := by
  refine ⟨?_, iff_of_false (by omega) fun h => htype (congrArg Prod.fst (toLex_inj.mp h))⟩
  rw [Addr.key, Addr.key, Prod.Lex.toLex_lt_toLex, or_iff_left fun h => htype h.1]
  omega

theorem addressCompare_follows (a b : Addr) : Follows (addressCompare a b) a.key b.key := by
  cases a with
  | ipv4 l =>
    cases b with
    | ipv4 r => exact follows_of_bytes rfl (memcmp_follows (by simp))
    | ipv6 _ | named _ => exact follows_of_type nofun
  | ipv6 l =>
    cases b with
    | ipv6 r => exact follows_of_bytes rfl (memcmp_follows (by simp))
    | ipv4 _ | named _ => exact follows_of_type nofun
  | named l =>
    cases b with
    | named r =>
      have hmin : min l.1.length r.1.length =
          if l.1.length < r.1.length then l.1.length else r.1.length := by
        split <;> omega
      have h := names_follow l.1 r.1
      rw [hmin] at h
      exact follows_of_bytes rfl h
    | ipv4 _ | ipv6 _ => exact follows_of_type nofun

/-- `bio_net_address_compare` is a total order: it returns zero for equal addresses only, its sign turns
when the addresses are exchanged, and it is transitive. -/
theorem addressCompare_order :
    (∀ a b, addressCompare a b = 0 ↔ a = b) ∧
    (∀ a b, 0 < addressCompare a b ↔ addressCompare b a < 0) ∧
    ∀ a b c, addressCompare a b ≤ 0 → addressCompare b c ≤ 0 → addressCompare a c ≤ 0 := by
  refine ⟨fun a b => ?_, fun a b => ?_, fun a b c hab hbc => ?_⟩
  · exact (addressCompare_follows a b).zero.trans Addr.key_injective.eq_iff
  · exact (addressCompare_follows a b).pos.trans (addressCompare_follows b a).neg.symm
  · rw [← not_lt, (addressCompare_follows _ _).pos, not_lt] at hab hbc ⊢
    exact le_trans hab hbc

/-! ## What a translation is for -/

/-- The address and the port of an IPv4 address are in the result, also when they are not written. -/
theorem translateIpv4_addr (bytes : Vector UInt8 4) (port : UInt16) :
    (translateIpv4 bytes port).addr = .inet (htons port) bytes := by
  unfold translateIpv4
  split
  · rfl
  · next hany =>
    obtain ⟨hbytes, rfl⟩ := not_or.mp hany |>.imp not_not.mp not_not.mp
    rw [Addr.ipv4.inj ((addressCompare_order.1 _ _).mp hbytes)]
    rfl

theorem translateIpv6_addr (bytes : Vector UInt8 16) (port : UInt16) :
    (translateIpv6 bytes port).addr = .inet6 (htons port) bytes := by
  unfold translateIpv6
  split
  · rfl
  · next hany =>
    obtain ⟨hbytes, rfl⟩ := not_or.mp hany |>.imp not_not.mp not_not.mp
    rw [Addr.ipv6.inj ((addressCompare_order.1 _ _).mp hbytes)]
    rfl

/-- The port can be read back. -/
theorem htons_injective : Function.Injective htons := by
  intro p q h
  have hhi := congrArg UInt8.toNat (congrArg Prod.fst h)
  have hlo := congrArg UInt8.toNat (congrArg Prod.snd h)
  simp only [htons, UInt8.toNat_ofNat'] at hhi hlo
  refine UInt16.toNat_inj.mp ?_
  have hp := p.toNat_lt
  have hq := q.toNat_lt
  omega

/-- The bytes of a translated address, with the terminator of the name of a pipe. -/
def SockAddr.stored : SockAddr → Nat
  | .inet _ _ => 16
  | .inet6 _ _ => 28
  | .unix path => 2 + path.length
  | .pipe name => name.length + 1

/-- A translation fits when the names do. -/
theorem translateWith_fits {translateName : List UInt8 → Except FileError AddrTranslation} {size : Nat}
    (hsize : 28 ≤ size)
    (hname : ∀ name translation, translateName name = .ok translation →
      translation.addr.stored ≤ size) {addr : Addr} {port : UInt16} {translation : AddrTranslation}
    (h : translateWith translateName addr port = .ok translation) : translation.addr.stored ≤ size := by
  cases addr with
  | ipv4 bytes =>
    cases h
    rw [translateIpv4_addr]
    exact le_trans (by decide : 16 ≤ 28) hsize
  | ipv6 bytes =>
    cases h
    rw [translateIpv6_addr]
    exact hsize
  | named name => exact hname name.1 translation h

theorem linuxName_fits (name : List UInt8) (translation : AddrTranslation)
    (h : linuxName name = .ok translation) : translation.addr.stored ≤ 2 + 107 := by
  cases name with
  | nil =>
    cases h
    decide
  | cons first rest =>
    rw [linuxName] at h
    split at h
    · next hlen =>
      cases h
      exact Nat.add_le_add_left (Nat.le_of_lt_succ hlen) 2
    · cases h

theorem freebsdName_fits (name : List UInt8) (translation : AddrTranslation)
    (h : freebsdName name = .ok translation) : translation.addr.stored ≤ 2 + 103 := by
  cases name with
  | nil =>
    cases h
    decide
  | cons first rest =>
    rw [freebsdName] at h
    split at h
    · next hlen =>
      split at h
      · cases h
      · cases h
        exact Nat.add_le_add_left (Nat.le_of_lt_succ hlen) 2
    · cases h

theorem windowsName_fits (name : List UInt8) (translation : AddrTranslation)
    (h : windowsName name = .ok translation) : translation.addr.stored ≤ 257 := by
  cases name with
  | nil =>
    cases h
    decide
  | cons first rest =>
    rw [windowsName] at h
    split at h
    · next hlen =>
      cases h
      have hprefix : pipePrefix.length = 9 := rfl
      have hmarked : (if first = abstractMark ∨ first = 0 then rest else first :: rest).length ≤
          (first :: rest).length := by
        split
        · exact Nat.le_succ _
        · exact le_rfl
      simp only [SockAddr.stored, List.length_append, List.length_map]
      omega
    · cases h

/-- A name stays in `sun_path` with a byte to spare, and the name of a pipe with its terminator in its
array. -/
theorem translated_fits (addr : Addr) (port : UInt16) (translation : AddrTranslation) :
    (linuxTranslateAddress addr port = .ok translation → translation.addr.stored ≤ 2 + 107) ∧
    (freebsdTranslateAddress addr port = .ok translation → translation.addr.stored ≤ 2 + 103) ∧
    (windowsTranslateAddress addr port = .ok translation → translation.addr.stored ≤ 257) :=
  ⟨translateWith_fits (by decide) linuxName_fits, translateWith_fits (by decide) freebsdName_fits,
    translateWith_fits (by decide) windowsName_fits⟩

/-- The two ways to mark an abstract socket are the same. -/
def unmarked : List UInt8 → List UInt8
  | [] => []
  | first :: rest => (if first = abstractMark then 0 else first) :: rest

theorem linuxName_addr {name : List UInt8} {translation : AddrTranslation}
    (h : linuxName name = .ok translation) : translation.addr = .unix (unmarked name) := by
  cases name with
  | nil =>
    cases h
    rfl
  | cons first rest =>
    rw [linuxName] at h
    split at h
    · cases h
      rfl
    · cases h

/-- A translation on Linux forgets the port of a name and which mark it had, and nothing else: in
particular two addresses with ports stay apart. -/
theorem linuxTranslate_eq_iff {a b : Addr} {p q : UInt16} {r r' : AddrTranslation}
    (h : linuxTranslateAddress a p = .ok r) (h' : linuxTranslateAddress b q = .ok r') :
    r.addr = r'.addr ↔ (a = b ∧ p = q) ∨
      ∃ n m, a = .named n ∧ b = .named m ∧ unmarked n.1 = unmarked m.1 := by
  cases a with
  | ipv4 l =>
    cases h
    rw [translateIpv4_addr]
    cases b with
    | ipv4 l' =>
      cases h'
      simp [translateIpv4_addr, htons_injective.eq_iff, and_comm]
    | ipv6 l' =>
      cases h'
      simp [translateIpv6_addr]
    | named m => simp [linuxName_addr h']
  | ipv6 l =>
    cases h
    rw [translateIpv6_addr]
    cases b with
    | ipv4 l' =>
      cases h'
      simp [translateIpv4_addr]
    | ipv6 l' =>
      cases h'
      simp [translateIpv6_addr, htons_injective.eq_iff, and_comm]
    | named m => simp [linuxName_addr h']
  | named n =>
    rw [linuxName_addr h]
    cases b with
    | ipv4 l' =>
      cases h'
      simp [translateIpv4_addr]
    | ipv6 l' =>
      cases h'
      simp [translateIpv6_addr]
    | named m =>
      rw [linuxName_addr h', SockAddr.unix.injEq]
      refine ⟨fun heq => .inr ⟨n, m, rfl, rfl, heq⟩, ?_⟩
      rintro (⟨heq, _⟩ | ⟨_, _, hn, hm, heq⟩)
      · rw [Addr.named.inj heq]
      · rw [Addr.named.inj hn, Addr.named.inj hm]
        exact heq

theorem linuxTranslate_eq_iff_marked :
    ∃ r r', linuxTranslateAddress (.named ⟨[64, 97], by decide⟩) 1 = .ok r ∧
      linuxTranslateAddress (.named ⟨[0, 97], by decide⟩) 2 = .ok r' ∧ r.addr = r'.addr :=
  ⟨_, _, rfl, rfl, (linuxTranslate_eq_iff (a := .named ⟨[64, 97], by decide⟩) (p := 1)
    (b := .named ⟨[0, 97], by decide⟩) (q := 2) rfl rfl).mpr (.inr ⟨_, _, rfl, rfl, by decide⟩)⟩

end Bio
