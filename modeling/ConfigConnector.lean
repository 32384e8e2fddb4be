import ConfigConnector.Actuation.Predicate
import ConfigConnector.Direct.ErrorCodes
import ConfigConnector.GcpWatch.Tracker
import ConfigConnector.Iam.OrphanedGrants
import ConfigConnector.Iam.SharedPolicy
import ConfigConnector.Iam.Settling
import ConfigConnector.Direct.Deletion
import ConfigConnector.Terraform.Ready
import ConfigConnector.Direct.IamRemoval
import ConfigConnector.Lease.Exclusion
import ConfigConnector.Webhook.TerraformChanges
import ConfigConnector.Webhook.DclChanges
import ConfigConnector.Managed.Abandon
import ConfigConnector.Direct.NormalizeReferences
import ConfigConnector.Direct.PartialPolicyFrame
import ConfigConnector.Direct.SqlInstanceReads
import ConfigConnector.Direct.TopLevelDiff
import ConfigConnector.Cluster.Agreement
import ConfigConnector.Krmtotf.ConflictFree
import ConfigConnector.Operator.ModeSwitch
import ConfigConnector.Operator.Flags
import ConfigConnector.Operator.ImageTransform
import ConfigConnector.K8s.Name
import ConfigConnector.Krmtotf.ListPositions
import ConfigConnector.Krmtotf.SetMatching
import ConfigConnector.Krmtotf.ValueTemplates
import ConfigConnector.Krmtotf.BigtableClusters
import ConfigConnector.Dcl.MergeStable
import ConfigConnector.Dcl.MergePaths
import ConfigConnector.Dcl.TrimNil
import ConfigConnector.Direct.Durations
import ConfigConnector.Direct.Compare
import ConfigConnector.Direct.SortRepeated
import ConfigConnector.Preview.Recorder
import ConfigConnector.Refs.ComputeLinks
import ConfigConnector.OutputSink.ExportPaths
