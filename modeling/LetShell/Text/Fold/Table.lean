import LetShell.Text.Basic

/-!
# Case folding data

Full case folding above ASCII. Most letters fold to one letter, and neighbours
fold alike, so those are kept as runs. The rest fold to two or three letters.
-/

set_option autoImplicit false

namespace LetShell.Text

/-- Letters `first, first + step, …, last` fold to `target, target + step, …`. -/
structure FoldRun where
  first : Nat
  last : Nat
  step : Nat
  target : Nat
  deriving DecidableEq, Repr

def foldRuns : List FoldRun := [
  ⟨0x00b5, 0x00b5, 1, 0x03bc⟩, ⟨0x00c0, 0x00d6, 1, 0x00e0⟩, ⟨0x00d8, 0x00de, 1, 0x00f8⟩,
  ⟨0x0100, 0x012e, 2, 0x0101⟩, ⟨0x0132, 0x0136, 2, 0x0133⟩, ⟨0x0139, 0x0147, 2, 0x013a⟩,
  ⟨0x014a, 0x0176, 2, 0x014b⟩, ⟨0x0178, 0x0178, 1, 0x00ff⟩, ⟨0x0179, 0x017d, 2, 0x017a⟩,
  ⟨0x017f, 0x017f, 1, 0x0073⟩, ⟨0x0181, 0x0181, 1, 0x0253⟩, ⟨0x0182, 0x0184, 2, 0x0183⟩,
  ⟨0x0186, 0x0186, 1, 0x0254⟩, ⟨0x0187, 0x0187, 1, 0x0188⟩, ⟨0x0189, 0x018a, 1, 0x0256⟩,
  ⟨0x018b, 0x018b, 1, 0x018c⟩, ⟨0x018e, 0x018e, 1, 0x01dd⟩, ⟨0x018f, 0x018f, 1, 0x0259⟩,
  ⟨0x0190, 0x0190, 1, 0x025b⟩, ⟨0x0191, 0x0191, 1, 0x0192⟩, ⟨0x0193, 0x0193, 1, 0x0260⟩,
  ⟨0x0194, 0x0194, 1, 0x0263⟩, ⟨0x0196, 0x0196, 1, 0x0269⟩, ⟨0x0197, 0x0197, 1, 0x0268⟩,
  ⟨0x0198, 0x0198, 1, 0x0199⟩, ⟨0x019c, 0x019c, 1, 0x026f⟩, ⟨0x019d, 0x019d, 1, 0x0272⟩,
  ⟨0x019f, 0x019f, 1, 0x0275⟩, ⟨0x01a0, 0x01a4, 2, 0x01a1⟩, ⟨0x01a6, 0x01a6, 1, 0x0280⟩,
  ⟨0x01a7, 0x01a7, 1, 0x01a8⟩, ⟨0x01a9, 0x01a9, 1, 0x0283⟩, ⟨0x01ac, 0x01ac, 1, 0x01ad⟩,
  ⟨0x01ae, 0x01ae, 1, 0x0288⟩, ⟨0x01af, 0x01af, 1, 0x01b0⟩, ⟨0x01b1, 0x01b2, 1, 0x028a⟩,
  ⟨0x01b3, 0x01b5, 2, 0x01b4⟩, ⟨0x01b7, 0x01b7, 1, 0x0292⟩, ⟨0x01b8, 0x01b8, 1, 0x01b9⟩,
  ⟨0x01bc, 0x01bc, 1, 0x01bd⟩, ⟨0x01c4, 0x01c4, 1, 0x01c6⟩, ⟨0x01c5, 0x01c5, 1, 0x01c6⟩,
  ⟨0x01c7, 0x01c7, 1, 0x01c9⟩, ⟨0x01c8, 0x01c8, 1, 0x01c9⟩, ⟨0x01ca, 0x01ca, 1, 0x01cc⟩,
  ⟨0x01cb, 0x01db, 2, 0x01cc⟩, ⟨0x01de, 0x01ee, 2, 0x01df⟩, ⟨0x01f1, 0x01f1, 1, 0x01f3⟩,
  ⟨0x01f2, 0x01f4, 2, 0x01f3⟩, ⟨0x01f6, 0x01f6, 1, 0x0195⟩, ⟨0x01f7, 0x01f7, 1, 0x01bf⟩,
  ⟨0x01f8, 0x021e, 2, 0x01f9⟩, ⟨0x0220, 0x0220, 1, 0x019e⟩, ⟨0x0222, 0x0232, 2, 0x0223⟩,
  ⟨0x023a, 0x023a, 1, 0x2c65⟩, ⟨0x023b, 0x023b, 1, 0x023c⟩, ⟨0x023d, 0x023d, 1, 0x019a⟩,
  ⟨0x023e, 0x023e, 1, 0x2c66⟩, ⟨0x0241, 0x0241, 1, 0x0242⟩, ⟨0x0243, 0x0243, 1, 0x0180⟩,
  ⟨0x0244, 0x0244, 1, 0x0289⟩, ⟨0x0245, 0x0245, 1, 0x028c⟩, ⟨0x0246, 0x024e, 2, 0x0247⟩,
  ⟨0x0345, 0x0345, 1, 0x03b9⟩, ⟨0x0370, 0x0372, 2, 0x0371⟩, ⟨0x0376, 0x0376, 1, 0x0377⟩,
  ⟨0x037f, 0x037f, 1, 0x03f3⟩, ⟨0x0386, 0x0386, 1, 0x03ac⟩, ⟨0x0388, 0x038a, 1, 0x03ad⟩,
  ⟨0x038c, 0x038c, 1, 0x03cc⟩, ⟨0x038e, 0x038f, 1, 0x03cd⟩, ⟨0x0391, 0x03a1, 1, 0x03b1⟩,
  ⟨0x03a3, 0x03ab, 1, 0x03c3⟩, ⟨0x03c2, 0x03c2, 1, 0x03c3⟩, ⟨0x03cf, 0x03cf, 1, 0x03d7⟩,
  ⟨0x03d0, 0x03d0, 1, 0x03b2⟩, ⟨0x03d1, 0x03d1, 1, 0x03b8⟩, ⟨0x03d5, 0x03d5, 1, 0x03c6⟩,
  ⟨0x03d6, 0x03d6, 1, 0x03c0⟩, ⟨0x03d8, 0x03ee, 2, 0x03d9⟩, ⟨0x03f0, 0x03f0, 1, 0x03ba⟩,
  ⟨0x03f1, 0x03f1, 1, 0x03c1⟩, ⟨0x03f4, 0x03f4, 1, 0x03b8⟩, ⟨0x03f5, 0x03f5, 1, 0x03b5⟩,
  ⟨0x03f7, 0x03f7, 1, 0x03f8⟩, ⟨0x03f9, 0x03f9, 1, 0x03f2⟩, ⟨0x03fa, 0x03fa, 1, 0x03fb⟩,
  ⟨0x03fd, 0x03ff, 1, 0x037b⟩, ⟨0x0400, 0x040f, 1, 0x0450⟩, ⟨0x0410, 0x042f, 1, 0x0430⟩,
  ⟨0x0460, 0x0480, 2, 0x0461⟩, ⟨0x048a, 0x04be, 2, 0x048b⟩, ⟨0x04c0, 0x04c0, 1, 0x04cf⟩,
  ⟨0x04c1, 0x04cd, 2, 0x04c2⟩, ⟨0x04d0, 0x052e, 2, 0x04d1⟩, ⟨0x0531, 0x0556, 1, 0x0561⟩,
  ⟨0x10a0, 0x10c5, 1, 0x2d00⟩, ⟨0x10c7, 0x10c7, 1, 0x2d27⟩, ⟨0x10cd, 0x10cd, 1, 0x2d2d⟩,
  ⟨0x13f8, 0x13fd, 1, 0x13f0⟩, ⟨0x1c80, 0x1c80, 1, 0x0432⟩, ⟨0x1c81, 0x1c81, 1, 0x0434⟩,
  ⟨0x1c82, 0x1c82, 1, 0x043e⟩, ⟨0x1c83, 0x1c84, 1, 0x0441⟩, ⟨0x1c85, 0x1c85, 1, 0x0442⟩,
  ⟨0x1c86, 0x1c86, 1, 0x044a⟩, ⟨0x1c87, 0x1c87, 1, 0x0463⟩, ⟨0x1c88, 0x1c88, 1, 0xa64b⟩,
  ⟨0x1c90, 0x1cba, 1, 0x10d0⟩, ⟨0x1cbd, 0x1cbf, 1, 0x10fd⟩, ⟨0x1e00, 0x1e94, 2, 0x1e01⟩,
  ⟨0x1e9b, 0x1e9b, 1, 0x1e61⟩, ⟨0x1ea0, 0x1efe, 2, 0x1ea1⟩, ⟨0x1f08, 0x1f0f, 1, 0x1f00⟩,
  ⟨0x1f18, 0x1f1d, 1, 0x1f10⟩, ⟨0x1f28, 0x1f2f, 1, 0x1f20⟩, ⟨0x1f38, 0x1f3f, 1, 0x1f30⟩,
  ⟨0x1f48, 0x1f4d, 1, 0x1f40⟩, ⟨0x1f59, 0x1f5f, 2, 0x1f51⟩, ⟨0x1f68, 0x1f6f, 1, 0x1f60⟩,
  ⟨0x1fb8, 0x1fb9, 1, 0x1fb0⟩, ⟨0x1fba, 0x1fbb, 1, 0x1f70⟩, ⟨0x1fbe, 0x1fbe, 1, 0x03b9⟩,
  ⟨0x1fc8, 0x1fcb, 1, 0x1f72⟩, ⟨0x1fd8, 0x1fd9, 1, 0x1fd0⟩, ⟨0x1fda, 0x1fdb, 1, 0x1f76⟩,
  ⟨0x1fe8, 0x1fe9, 1, 0x1fe0⟩, ⟨0x1fea, 0x1feb, 1, 0x1f7a⟩, ⟨0x1fec, 0x1fec, 1, 0x1fe5⟩,
  ⟨0x1ff8, 0x1ff9, 1, 0x1f78⟩, ⟨0x1ffa, 0x1ffb, 1, 0x1f7c⟩, ⟨0x2126, 0x2126, 1, 0x03c9⟩,
  ⟨0x212a, 0x212a, 1, 0x006b⟩, ⟨0x212b, 0x212b, 1, 0x00e5⟩, ⟨0x2132, 0x2132, 1, 0x214e⟩,
  ⟨0x2160, 0x216f, 1, 0x2170⟩, ⟨0x2183, 0x2183, 1, 0x2184⟩, ⟨0x24b6, 0x24cf, 1, 0x24d0⟩,
  ⟨0x2c00, 0x2c2f, 1, 0x2c30⟩, ⟨0x2c60, 0x2c60, 1, 0x2c61⟩, ⟨0x2c62, 0x2c62, 1, 0x026b⟩,
  ⟨0x2c63, 0x2c63, 1, 0x1d7d⟩, ⟨0x2c64, 0x2c64, 1, 0x027d⟩, ⟨0x2c67, 0x2c6b, 2, 0x2c68⟩,
  ⟨0x2c6d, 0x2c6d, 1, 0x0251⟩, ⟨0x2c6e, 0x2c6e, 1, 0x0271⟩, ⟨0x2c6f, 0x2c6f, 1, 0x0250⟩,
  ⟨0x2c70, 0x2c70, 1, 0x0252⟩, ⟨0x2c72, 0x2c72, 1, 0x2c73⟩, ⟨0x2c75, 0x2c75, 1, 0x2c76⟩,
  ⟨0x2c7e, 0x2c7f, 1, 0x023f⟩, ⟨0x2c80, 0x2ce2, 2, 0x2c81⟩, ⟨0x2ceb, 0x2ced, 2, 0x2cec⟩,
  ⟨0x2cf2, 0x2cf2, 1, 0x2cf3⟩, ⟨0xa640, 0xa66c, 2, 0xa641⟩, ⟨0xa680, 0xa69a, 2, 0xa681⟩,
  ⟨0xa722, 0xa72e, 2, 0xa723⟩, ⟨0xa732, 0xa76e, 2, 0xa733⟩, ⟨0xa779, 0xa77b, 2, 0xa77a⟩,
  ⟨0xa77d, 0xa77d, 1, 0x1d79⟩, ⟨0xa77e, 0xa786, 2, 0xa77f⟩, ⟨0xa78b, 0xa78b, 1, 0xa78c⟩,
  ⟨0xa78d, 0xa78d, 1, 0x0265⟩, ⟨0xa790, 0xa792, 2, 0xa791⟩, ⟨0xa796, 0xa7a8, 2, 0xa797⟩,
  ⟨0xa7aa, 0xa7aa, 1, 0x0266⟩, ⟨0xa7ab, 0xa7ab, 1, 0x025c⟩, ⟨0xa7ac, 0xa7ac, 1, 0x0261⟩,
  ⟨0xa7ad, 0xa7ad, 1, 0x026c⟩, ⟨0xa7ae, 0xa7ae, 1, 0x026a⟩, ⟨0xa7b0, 0xa7b0, 1, 0x029e⟩,
  ⟨0xa7b1, 0xa7b1, 1, 0x0287⟩, ⟨0xa7b2, 0xa7b2, 1, 0x029d⟩, ⟨0xa7b3, 0xa7b3, 1, 0xab53⟩,
  ⟨0xa7b4, 0xa7c2, 2, 0xa7b5⟩, ⟨0xa7c4, 0xa7c4, 1, 0xa794⟩, ⟨0xa7c5, 0xa7c5, 1, 0x0282⟩,
  ⟨0xa7c6, 0xa7c6, 1, 0x1d8e⟩, ⟨0xa7c7, 0xa7c9, 2, 0xa7c8⟩, ⟨0xa7d0, 0xa7d0, 1, 0xa7d1⟩,
  ⟨0xa7d6, 0xa7d8, 2, 0xa7d7⟩, ⟨0xa7f5, 0xa7f5, 1, 0xa7f6⟩, ⟨0xab70, 0xabbf, 1, 0x13a0⟩,
  ⟨0xff21, 0xff3a, 1, 0xff41⟩, ⟨0x10400, 0x10427, 1, 0x10428⟩, ⟨0x104b0, 0x104d3, 1, 0x104d8⟩,
  ⟨0x10570, 0x10594, 2, 0x10597⟩, ⟨0x10571, 0x10579, 2, 0x10598⟩, ⟨0x1057d, 0x10589, 2, 0x105a4⟩,
  ⟨0x1058d, 0x10591, 2, 0x105b4⟩, ⟨0x10595, 0x10595, 1, 0x105bc⟩, ⟨0x10c80, 0x10cb2, 1, 0x10cc0⟩,
  ⟨0x118a0, 0x118bf, 1, 0x118c0⟩, ⟨0x16e40, 0x16e5f, 1, 0x16e60⟩, ⟨0x1e900, 0x1e921, 1, 0x1e922⟩]

def foldSpread : List (Nat × List Nat) := [
  (0x00df, [0x0073, 0x0073]), (0x0130, [0x0069, 0x0307]), (0x0149, [0x02bc, 0x006e]),
  (0x01f0, [0x006a, 0x030c]), (0x0390, [0x03b9, 0x0308, 0x0301]),
  (0x03b0, [0x03c5, 0x0308, 0x0301]), (0x0587, [0x0565, 0x0582]), (0x1e96, [0x0068, 0x0331]),
  (0x1e97, [0x0074, 0x0308]), (0x1e98, [0x0077, 0x030a]), (0x1e99, [0x0079, 0x030a]),
  (0x1e9a, [0x0061, 0x02be]), (0x1e9e, [0x0073, 0x0073]), (0x1f50, [0x03c5, 0x0313]),
  (0x1f52, [0x03c5, 0x0313, 0x0300]), (0x1f54, [0x03c5, 0x0313, 0x0301]),
  (0x1f56, [0x03c5, 0x0313, 0x0342]), (0x1f80, [0x1f00, 0x03b9]), (0x1f81, [0x1f01, 0x03b9]),
  (0x1f82, [0x1f02, 0x03b9]), (0x1f83, [0x1f03, 0x03b9]), (0x1f84, [0x1f04, 0x03b9]),
  (0x1f85, [0x1f05, 0x03b9]), (0x1f86, [0x1f06, 0x03b9]), (0x1f87, [0x1f07, 0x03b9]),
  (0x1f88, [0x1f00, 0x03b9]), (0x1f89, [0x1f01, 0x03b9]), (0x1f8a, [0x1f02, 0x03b9]),
  (0x1f8b, [0x1f03, 0x03b9]), (0x1f8c, [0x1f04, 0x03b9]), (0x1f8d, [0x1f05, 0x03b9]),
  (0x1f8e, [0x1f06, 0x03b9]), (0x1f8f, [0x1f07, 0x03b9]), (0x1f90, [0x1f20, 0x03b9]),
  (0x1f91, [0x1f21, 0x03b9]), (0x1f92, [0x1f22, 0x03b9]), (0x1f93, [0x1f23, 0x03b9]),
  (0x1f94, [0x1f24, 0x03b9]), (0x1f95, [0x1f25, 0x03b9]), (0x1f96, [0x1f26, 0x03b9]),
  (0x1f97, [0x1f27, 0x03b9]), (0x1f98, [0x1f20, 0x03b9]), (0x1f99, [0x1f21, 0x03b9]),
  (0x1f9a, [0x1f22, 0x03b9]), (0x1f9b, [0x1f23, 0x03b9]), (0x1f9c, [0x1f24, 0x03b9]),
  (0x1f9d, [0x1f25, 0x03b9]), (0x1f9e, [0x1f26, 0x03b9]), (0x1f9f, [0x1f27, 0x03b9]),
  (0x1fa0, [0x1f60, 0x03b9]), (0x1fa1, [0x1f61, 0x03b9]), (0x1fa2, [0x1f62, 0x03b9]),
  (0x1fa3, [0x1f63, 0x03b9]), (0x1fa4, [0x1f64, 0x03b9]), (0x1fa5, [0x1f65, 0x03b9]),
  (0x1fa6, [0x1f66, 0x03b9]), (0x1fa7, [0x1f67, 0x03b9]), (0x1fa8, [0x1f60, 0x03b9]),
  (0x1fa9, [0x1f61, 0x03b9]), (0x1faa, [0x1f62, 0x03b9]), (0x1fab, [0x1f63, 0x03b9]),
  (0x1fac, [0x1f64, 0x03b9]), (0x1fad, [0x1f65, 0x03b9]), (0x1fae, [0x1f66, 0x03b9]),
  (0x1faf, [0x1f67, 0x03b9]), (0x1fb2, [0x1f70, 0x03b9]), (0x1fb3, [0x03b1, 0x03b9]),
  (0x1fb4, [0x03ac, 0x03b9]), (0x1fb6, [0x03b1, 0x0342]), (0x1fb7, [0x03b1, 0x0342, 0x03b9]),
  (0x1fbc, [0x03b1, 0x03b9]), (0x1fc2, [0x1f74, 0x03b9]), (0x1fc3, [0x03b7, 0x03b9]),
  (0x1fc4, [0x03ae, 0x03b9]), (0x1fc6, [0x03b7, 0x0342]), (0x1fc7, [0x03b7, 0x0342, 0x03b9]),
  (0x1fcc, [0x03b7, 0x03b9]), (0x1fd2, [0x03b9, 0x0308, 0x0300]),
  (0x1fd3, [0x03b9, 0x0308, 0x0301]), (0x1fd6, [0x03b9, 0x0342]),
  (0x1fd7, [0x03b9, 0x0308, 0x0342]), (0x1fe2, [0x03c5, 0x0308, 0x0300]),
  (0x1fe3, [0x03c5, 0x0308, 0x0301]), (0x1fe4, [0x03c1, 0x0313]), (0x1fe6, [0x03c5, 0x0342]),
  (0x1fe7, [0x03c5, 0x0308, 0x0342]), (0x1ff2, [0x1f7c, 0x03b9]), (0x1ff3, [0x03c9, 0x03b9]),
  (0x1ff4, [0x03ce, 0x03b9]), (0x1ff6, [0x03c9, 0x0342]), (0x1ff7, [0x03c9, 0x0342, 0x03b9]),
  (0x1ffc, [0x03c9, 0x03b9]), (0xfb00, [0x0066, 0x0066]), (0xfb01, [0x0066, 0x0069]),
  (0xfb02, [0x0066, 0x006c]), (0xfb03, [0x0066, 0x0066, 0x0069]),
  (0xfb04, [0x0066, 0x0066, 0x006c]), (0xfb05, [0x0073, 0x0074]), (0xfb06, [0x0073, 0x0074]),
  (0xfb13, [0x0574, 0x0576]), (0xfb14, [0x0574, 0x0565]), (0xfb15, [0x0574, 0x056b]),
  (0xfb16, [0x057e, 0x0576]), (0xfb17, [0x0574, 0x056d])]

end LetShell.Text
