namespace DoubleEntry.Sha384

def isPrime (n : Nat) : Bool := 2 ≤ n && (List.range n).all fun d => d < 2 || n % d != 0

def primes : List Nat := (List.range 410).filter isPrime

-- The greatest number whose `k`-th power is at most `n`, for roots below 2^68.
def root (k n : Nat) : Nat :=
  ((List.range 68).reverse).foldl
    (fun r b => if Nat.pow (r + 1 <<< b) k ≤ n then r + 1 <<< b else r) 0

def roundConstants : List UInt64 := primes.map fun p => .ofNat (root 3 (p <<< 192))

def initial : List UInt64 := ((primes.drop 8).take 8).map fun p => .ofNat (root 2 (p <<< 128))

def rotate (x n : UInt64) : UInt64 := (x >>> n) ||| (x <<< (64 - n))

-- A one bit, zeros, and the length in bits fill up the last block of 128 bytes.
def pad (message : List UInt8) : List UInt8 :=
  let zeros := (239 - message.length % 128) % 128
  let bits := 8 * message.length
  message ++ 0x80 :: List.replicate zeros 0 ++
    (List.range 16).map fun i => .ofNat (bits >>> (8 * (15 - i)))

def wordOf (bytes : List UInt8) : UInt64 := bytes.foldl (fun w b => (w <<< 8) ||| b.toUInt64) 0

def chunks (size : Nat) : Nat → List α → List (List α)
  | 0, _ => []
  | n + 1, xs => xs.take size :: chunks size n (xs.drop size)

-- The window holds the last sixteen words of the schedule, the oldest first.
def nextWord (window : List UInt64) : UInt64 :=
  let w := fun i => window.getD i 0
  let s0 := rotate (w 1) 1 ^^^ rotate (w 1) 8 ^^^ (w 1 >>> 7)
  let s1 := rotate (w 14) 19 ^^^ rotate (w 14) 61 ^^^ (w 14 >>> 6)
  w 0 + s0 + w 9 + s1

def round (s : List UInt64) (k w : UInt64) : List UInt64 :=
  match s with
  | [a,b,c,d,e,f,g,h] =>
    let s1 := rotate e 14 ^^^ rotate e 18 ^^^ rotate e 41
    let choice := (e &&& f) ^^^ (~~~e &&& g)
    let t1 := h + s1 + choice + k + w
    let s0 := rotate a 28 ^^^ rotate a 34 ^^^ rotate a 39
    let majority := (a &&& b) ^^^ (a &&& c) ^^^ (b &&& c)
    [t1 + s0 + majority,a,b,c,d + t1,e,f,g]
  | s => s

def absorb (s : List UInt64) (block : List UInt8) : List UInt64 :=
  let window := (chunks 8 16 block).map wordOf
  let (final,_) := roundConstants.foldl
    (fun (s,window) k => (round s k (window.headD 0),window.tail ++ [nextWord window])) (s,window)
  List.zipWith (· + ·) s final

def bytesOf (w : UInt64) : List UInt8 :=
  (List.range 8).map fun i => .ofNat (w.toNat >>> (8 * (7 - i)))

def digest (message : List UInt8) : List UInt8 :=
  let padded := pad message
  let final := (chunks 128 (padded.length / 128) padded).foldl absorb initial
  (final.take 6).flatMap bytesOf

end DoubleEntry.Sha384
