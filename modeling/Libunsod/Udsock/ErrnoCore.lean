import Mathlib.Tactic.Common

/-!
Error numbers. `ErrName` lists the symbolic names numbered 1 to 63 in
`uinet_api_errno.h`; `ErrName.uinet` is that numbering and `ErrName.host` the
Linux one, which the macros of `errno_map` expand to.
-/

namespace Libunsod.Udsock

inductive ErrName
  | eperm | enoent | esrch | eintr | eio | enxio | e2big | enoexec | ebadf | echild | edeadlk
  | enomem | eacces | efault | enotblk | ebusy | eexist | exdev | enodev | enotdir | eisdir
  | einval | enfile | emfile | enotty | etxtbsy | efbig | enospc | espipe | erofs | emlink
  | epipe | edom | erange | eagain | einprogress | ealready | enotsock | edestaddrreq
  | emsgsize | eprototype | enoprotoopt | eprotonosupport | esocktnosupport | eopnotsupp
  | epfnosupport | eafnosupport | eaddrinuse | eaddrnotavail | enetdown | enetunreach
  | enetreset | econnaborted | econnreset | enobufs | eisconn | enotconn | eshutdown
  | etoomanyrefs | etimedout | econnrefused | eloop | enametoolong
  deriving DecidableEq, Repr

def ErrName.uinet : ErrName → Int
  | .eperm => 1 | .enoent => 2 | .esrch => 3 | .eintr => 4 | .eio => 5 | .enxio => 6
  | .e2big => 7 | .enoexec => 8 | .ebadf => 9 | .echild => 10 | .edeadlk => 11 | .enomem => 12
  | .eacces => 13 | .efault => 14 | .enotblk => 15 | .ebusy => 16 | .eexist => 17
  | .exdev => 18 | .enodev => 19 | .enotdir => 20 | .eisdir => 21 | .einval => 22
  | .enfile => 23 | .emfile => 24 | .enotty => 25 | .etxtbsy => 26 | .efbig => 27
  | .enospc => 28 | .espipe => 29 | .erofs => 30 | .emlink => 31 | .epipe => 32 | .edom => 33
  | .erange => 34 | .eagain => 35 | .einprogress => 36 | .ealready => 37 | .enotsock => 38
  | .edestaddrreq => 39 | .emsgsize => 40 | .eprototype => 41 | .enoprotoopt => 42
  | .eprotonosupport => 43 | .esocktnosupport => 44 | .eopnotsupp => 45 | .epfnosupport => 46
  | .eafnosupport => 47 | .eaddrinuse => 48 | .eaddrnotavail => 49 | .enetdown => 50
  | .enetunreach => 51 | .enetreset => 52 | .econnaborted => 53 | .econnreset => 54
  | .enobufs => 55 | .eisconn => 56 | .enotconn => 57 | .eshutdown => 58 | .etoomanyrefs => 59
  | .etimedout => 60 | .econnrefused => 61 | .eloop => 62 | .enametoolong => 63

def ErrName.host : ErrName → Int
  | .eperm => 1 | .enoent => 2 | .esrch => 3 | .eintr => 4 | .eio => 5 | .enxio => 6
  | .e2big => 7 | .enoexec => 8 | .ebadf => 9 | .echild => 10 | .edeadlk => 35 | .enomem => 12
  | .eacces => 13 | .efault => 14 | .enotblk => 15 | .ebusy => 16 | .eexist => 17
  | .exdev => 18 | .enodev => 19 | .enotdir => 20 | .eisdir => 21 | .einval => 22
  | .enfile => 23 | .emfile => 24 | .enotty => 25 | .etxtbsy => 26 | .efbig => 27
  | .enospc => 28 | .espipe => 29 | .erofs => 30 | .emlink => 31 | .epipe => 32 | .edom => 33
  | .erange => 34 | .eagain => 11 | .einprogress => 115 | .ealready => 114 | .enotsock => 88
  | .edestaddrreq => 89 | .emsgsize => 90 | .eprototype => 91 | .enoprotoopt => 92
  | .eprotonosupport => 93 | .esocktnosupport => 94 | .eopnotsupp => 95 | .epfnosupport => 96
  | .eafnosupport => 97 | .eaddrinuse => 98 | .eaddrnotavail => 99 | .enetdown => 100
  | .enetunreach => 101 | .enetreset => 102 | .econnaborted => 103 | .econnreset => 104
  | .enobufs => 105 | .eisconn => 106 | .enotconn => 107 | .eshutdown => 108
  | .etoomanyrefs => 109 | .etimedout => 110 | .econnrefused => 111 | .eloop => 40
  | .enametoolong => 36

open ErrName in
def ErrName.inOrder : List ErrName :=
  [eperm, enoent, esrch, eintr, eio, enxio, e2big, enoexec, ebadf, echild, edeadlk, enomem,
    eacces, efault, enotblk, ebusy, eexist, exdev, enodev, enotdir, eisdir, einval, enfile,
    emfile, enotty, etxtbsy, efbig, enospc, espipe, erofs, emlink, epipe, edom, erange, eagain,
    einprogress, ealready, enotsock, edestaddrreq, emsgsize, eprototype, enoprotoopt,
    eprotonosupport, esocktnosupport, eopnotsupp, epfnosupport, eafnosupport, eaddrinuse,
    eaddrnotavail, enetdown, enetunreach, enetreset, econnaborted, econnreset, enobufs, eisconn,
    enotconn, eshutdown, etoomanyrefs, etimedout, econnrefused, eloop, enametoolong]

open ErrName in
def errnoMap : List Int :=
  0 :: [
    eperm, enoent, esrch, eintr, eio, enxio, e2big, enoexec, ebadf, echild, edeadlk, enomem,
    eacces, efault, enotblk, ebusy, eexist, exdev, enodev, enotdir, eisdir, einval, enfile,
    emfile, enotty, etxtbsy, efbig, enospc, espipe, erofs, emlink, epipe, edom, erange, eagain,
    einprogress, ealready, enotsock, edestaddrreq, emsgsize, eprototype, enoprotoopt,
    eprotonosupport, esocktnosupport, eopnotsupp, eopnotsupp, epfnosupport, eafnosupport,
    eaddrinuse, eaddrnotavail, enetdown, enetunreach, enetreset, econnaborted, econnreset,
    enobufs, eisconn, enotconn, eshutdown, etoomanyrefs, etimedout, econnrefused, eloop,
    enametoolong].map ErrName.host

end Libunsod.Udsock
