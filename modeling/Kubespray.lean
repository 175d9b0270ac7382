import Kubespray.Library.OrderedDict
import Kubespray.Library.Histories
import Kubespray.Library.Fallible
import Kubespray.Library.LineSearch
import Kubespray.Library.Words
import Kubespray.Library.LineEdit
import Kubespray.Library.Firsts
import Kubespray.Library.Regex
import Kubespray.Library.Records
import Kubespray.Library.Blocks
import Kubespray.Library.Plays
import Kubespray.Library.Handlers
import Kubespray.Library.Replication
import Kubespray.Library.Rolling
import Kubespray.Library.Tasks
import Kubespray.Library.Retention
import Kubespray.Text
import Kubespray.Inventory.Config
import Kubespray.Inventory.Addresses
import Kubespray.Inventory.Hostnames
import Kubespray.Inventory.Assignment
import Kubespray.Inventory.Groups
import Kubespray.Inventory.Builder
import Kubespray.Inventory.Runs
import Kubespray.Inventory.RoleHistories
import Kubespray.Inventory.Removal
import Kubespray.Inventory.Layout
import Kubespray.Inventory.RouteReflectors
import Kubespray.Inventory.Failures
import Kubespray.Inventory.HostIds
import Kubespray.Inventory.Readback
import Kubespray.Inventory.Reruns
import Kubespray.Inventory.Incremental
import Kubespray.Inventory.Uniqueness
import Kubespray.Inventory.Assigned
import Kubespray.Inventory.AddArguments
import Kubespray.Inventory.Specified
import Kubespray.Inventory.Leftovers
import Kubespray.Inventory.Requested
import Kubespray.Inventory.Freshness
import Kubespray.Inventory.Expansion
import Kubespray.Inventory.Placement
import Kubespray.Inventory.LoadFile
import Kubespray.Inventory.Removed
import Kubespray.Etcd.Members
import Kubespray.Etcd.RemoveNode
import Kubespray.Etcd.Recovery
import Kubespray.Etcd.Group
import Kubespray.Etcd.Join
import Kubespray.Etcd.InitialCluster
import Kubespray.Etcd.AltNames
import Kubespray.Etcd.Backups
import Kubespray.ControlPlane.FirstHost
import Kubespray.ControlPlane.Joining
import Kubespray.ControlPlane.CertificateKey
import Kubespray.ControlPlane.EncryptAtRest
import Kubespray.EtcdCerts.Script
import Kubespray.EtcdCerts.Generation
import Kubespray.EtcdCerts.CheckCerts
import Kubespray.EtcdCerts.Authority
import Kubespray.EtcdCerts.Delivery
import Kubespray.EtcdCerts.Restart
import Kubespray.Terraform.State
import Kubespray.Terraform.Parsers
import Kubespray.Terraform.Listing
import Kubespray.Terraform.Hosts
import Kubespray.Terraform.FloatingIps
import Kubespray.Terraform.Flattening
import Kubespray.Terraform.Lists
import Kubespray.Terraform.Maps
import Kubespray.Terraform.Reader
import Kubespray.Terraform.Required
import Kubespray.Terraform.Formats
import Kubespray.Terraform.Readings
import Kubespray.Terraform.Order
import Kubespray.Terraform.Memberships
import Kubespray.Terraform.Usable
import Kubespray.Terraform.Queries
import Kubespray.Preinstall.AddressPlan
import Kubespray.Preinstall.PodAddresses
import Kubespray.Preinstall.EtcHosts
import Kubespray.Preinstall.ResolvConf
import Kubespray.Preinstall.Nameservers
import Kubespray.Preinstall.NameserverRuns
import Kubespray.Download.File
import Kubespray.Download.Container
import Kubespray.Download.ContainerRuns
import Kubespray.Download.SharedFiles
import Kubespray.Upgrade.Nodes
import Kubespray.Upgrade.Rollout
import Kubespray.Upgrade.Skew
import Kubespray.Offline.Images
import Kubespray.Tokens.Script
import Kubespray.Tokens.Role
import Kubespray.Tokens.Growth
import Kubespray.Tokens.Accounts
